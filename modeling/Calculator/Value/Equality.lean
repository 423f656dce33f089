import Calculator.Value.Basic

set_option autoImplicit false

namespace Calculator

mutual

def Value.same : Value → Value → Bool
  | .int n f, other => match other with
    | .int m g => n = m && f = g
    | _ => false
  | .float x f, other => match other with
    | .float y g => x == y && f = g
    | _ => false
  | .rational q f p, other => match other with
    | .rational r g k => q = r && f = g && p = k
    | _ => false
  | .date d, other => match other with
    | .date e => d = e
    | _ => false
  | .function name params body, other => match other with
    | .function name' params' body' => name = name' && params = params' && body.same body'
    | _ => false
  | .builtin b, other => match other with
    | .builtin c => b = c
    | _ => false
termination_by structural v => v

def Tree.same : Tree → Tree → Bool
  | .body l ts, other => match other with
    | .body l' ts' => l = l' && sameTrees ts ts'
    | _ => false
  | .constant l v, other => match other with
    | .constant l' v' => l = l' && v.same v'
    | _ => false
  | .reference l x, other => match other with
    | .reference l' x' => l = l' && x = x'
    | _ => false
  | .unary l o t, other => match other with
    | .unary l' o' t' => l = l' && o = o' && t.same t'
    | _ => false
  | .binary l o t u, other => match other with
    | .binary l' o' t' u' => l = l' && o = o' && t.same t' && u.same u'
    | _ => false
  | .assign l o x t, other => match other with
    | .assign l' o' x' t' => l = l' && o = o' && x = x' && t.same t'
    | _ => false
  | .whileLoop l g b, other => match other with
    | .whileLoop l' g' b' => l = l' && g.same g' && b.same b'
    | _ => false
  | .forLoop l i g s b, other => match other with
    | .forLoop l' i' g' s' b' => l = l' && i.same i' && g.same g' && s.same s' && b.same b'
    | _ => false
  | .conditional l g t o, other => match other with
    | .conditional l' g' t' o' => l = l' && g.same g' && t.same t' && sameOption o o'
    | _ => false
  | .define l x ps b, other => match other with
    | .define l' x' ps' b' => l = l' && x = x' && ps = ps' && b.same b'
    | _ => false
  | .call l x ts, other => match other with
    | .call l' x' ts' => l = l' && x = x' && sameTrees ts ts'
    | _ => false
  | .display l t, other => match other with
    | .display l' t' => l = l' && t.same t'
    | _ => false
  | .setMode l m, other => match other with
    | .setMode l' m' => l = l' && m = m'
    | _ => false
  | .toggleProgrammer l, other => match other with
    | .toggleProgrammer l' => l = l'
    | _ => false
  | .exit l, other => match other with
    | .exit l' => l = l'
    | _ => false
termination_by structural t => t

def sameTrees : List Tree → List Tree → Bool
  | [], other => other.isEmpty
  | t :: ts, other => match other with
    | [] => false
    | t' :: ts' => t.same t' && sameTrees ts ts'
termination_by structural ts => ts

def sameOption : Option Tree → Option Tree → Bool
  | none, other => other.isNone
  | some t, other => match other with
    | none => false
    | some t' => t.same t'
termination_by structural o => o

end

end Calculator
