import Calculator.Token.Basic

set_option autoImplicit false

namespace Calculator

/-- What is known about kinds and spellings, in two hash maps. A hash map is given by its entries,
each key once; the order in which it is gone through is not that of the list. -/
structure Table where
  infos : List (Kind × Descriptor)
  lexemes : List (String × Kind)

namespace Table

/-- The orders in which hash maps are gone through. Nothing else is known about them. -/
structure Orders where
  infos : List (Kind × Descriptor) → List (Kind × Descriptor)
  lexemes : List (String × Kind) → List (String × Kind)
  infos_perm : ∀ l, (infos l).Perm l
  lexemes_perm : ∀ l, (lexemes l).Perm l

/-- One entry more, which replaces an earlier one of its key. -/
def insert {κ α : Type} [DecidableEq κ] (entries : List (κ × α)) (entry : κ × α) : List (κ × α) :=
  entry :: entries.filter fun e => e.1 ≠ entry.1

def collect {κ α : Type} [DecidableEq κ] (entries : List (κ × α)) : List (κ × α) :=
  entries.foldl insert []

def properlyExtends (short long : String) : Bool :=
  short.toList.isPrefixOf long.toList && short.length < long.length

/-- The kinds whose spelling starts with a text and goes on, sorted. -/
def extensions (orders : Orders) (lexemes : List (String × Kind)) (short : String) : List Kind :=
  Kind.sort (((orders.lexemes lexemes).filter fun e => properlyExtends short e.1).map Prod.snd)

/-- A descriptor with the kinds that follow it; one without a spelling stays as it is. -/
def withFollow (orders : Orders) (lexemes : List (String × Kind)) (d : Descriptor) : Descriptor :=
  match d.lexeme with
  | none => d
  | some short => { d with follow := extensions orders lexemes short }

/-- The entries of the second map, from going through the first one. -/
def spellings (orders : Orders) (infos : List (Kind × Descriptor)) : List (String × Kind) :=
  (orders.infos infos).filterMap fun e => e.2.lexeme.map fun text => (text, e.2.kind)

/-- The table of a list of descriptors. Both maps are filled first, then the kinds that follow are
computed for each descriptor. -/
def ofDescriptors (orders : Orders) (descriptors : List Descriptor) : Table :=
  let infos := collect (descriptors.map fun d => (d.kind, d))
  let lexemes := collect (spellings orders infos)
  ⟨(orders.infos infos).map fun e => (e.1, withFollow orders lexemes e.2), lexemes⟩

def find? (t : Table) (kind : Kind) : Option Descriptor :=
  t.infos.lookup kind

def byLexeme (t : Table) (text : String) : Option Kind :=
  t.lexemes.lookup text

/-- The kinds that a longer token than one of this kind may have. -/
def follow (t : Table) (kind : Kind) : Option (List Kind) :=
  (t.find? kind).map Descriptor.follow

def Orders.unchanged : Orders :=
  ⟨id, id, .refl, .refl⟩

/-- The table of all kinds. Any other orders give the same one. -/
def standard : Table :=
  ofDescriptors .unchanged (Kind.all.map Kind.descriptor)

end Table

/-- The kinds of longer tokens that start as those of this kind. -/
def Kind.follow (k : Kind) : List Kind :=
  (Table.standard.follow k).getD []

end Calculator
