import Calculator.Token.Table
import Mathlib.Data.List.Nodup
import Mathlib.Data.List.Sort

set_option autoImplicit false

namespace Calculator

/-- The first kind stands in front of the second one in the order of the kinds. -/
def Kind.Before (k l : Kind) : Prop :=
  k.ctorIdx < l.ctorIdx

instance (k l : Kind) : Decidable (k.Before l) :=
  inferInstanceAs (Decidable (_ < _))

theorem Kind.all_pairwise_before : all.Pairwise Before := by
  decide

theorem Kind.ctorIdx_injective {k l : Kind} (same : k.ctorIdx = l.ctorIdx) : k = l := by
  cases k <;> cases l <;> first | rfl | cases same

theorem Kind.before_of_le {k l : Kind} (le : k.le l = true) (other : k ≠ l) : k.Before l :=
  Nat.lt_of_le_of_ne (of_decide_eq_true le) fun same => other (ctorIdx_injective same)

theorem Kind.insertSorted_eq_orderedInsert (k : Kind) (kinds : List Kind) :
    k.insertSorted kinds = kinds.orderedInsert (fun k l => k.le l = true) k := by
  induction kinds with
  | nil => rfl
  | cons l rest ih => rw [insertSorted, List.orderedInsert, ih]

theorem Kind.sort_eq_insertionSort (kinds : List Kind) :
    sort kinds = kinds.insertionSort fun k l => k.le l = true := by
  induction kinds with
  | nil => rfl
  | cons k rest ih =>
    rw [List.insertionSort_cons, ← ih, ← insertSorted_eq_orderedInsert]
    rfl

theorem Kind.sort_perm (kinds : List Kind) : (sort kinds).Perm kinds := by
  rw [sort_eq_insertionSort]
  exact List.perm_insertionSort _ kinds

theorem Kind.sort_pairwise (kinds : List Kind) :
    (sort kinds).Pairwise fun k l => k.le l = true := by
  have : Std.Total fun k l : Kind => k.le l = true :=
    ⟨fun k l => (Nat.le_total k.ctorIdx l.ctorIdx).imp decide_eq_true decide_eq_true⟩
  have : IsTrans Kind fun k l => k.le l = true :=
    ⟨fun _ _ _ first second =>
      decide_eq_true (Nat.le_trans (of_decide_eq_true first) (of_decide_eq_true second))⟩
  rw [sort_eq_insertionSort]
  exact List.pairwise_insertionSort _ kinds

theorem Kind.eq_of_pairwise_before {ks ls : List Kind} (sorted : ks.Pairwise Before)
    (sorted' : ls.Pairwise Before) (same : ∀ k, k ∈ ks ↔ k ∈ ls) : ks = ls := by
  have distinct {ks : List Kind} (sorted : ks.Pairwise Before) : ks.Nodup :=
    sorted.imp fun before => by rintro rfl; exact Nat.lt_irrefl _ before
  have perm := (List.perm_ext_iff_of_nodup (distinct sorted) (distinct sorted')).mpr same
  exact perm.eq_of_pairwise (fun _ _ _ _ before after => (Nat.lt_asymm before after).elim)
    sorted sorted'

/-- Each kind has one descriptor, however often it is given, and different kinds have different
spellings. -/
structure Descriptor.Consistent (ds : List Descriptor) : Prop where
  single : ∀ d ∈ ds, ∀ d' ∈ ds, d.kind = d'.kind → d = d'
  apart : ∀ d ∈ ds, ∀ d' ∈ ds, ∀ text, d.lexeme = some text → d'.lexeme = some text →
    d.kind = d'.kind

theorem Descriptor.Consistent.congr {ds ds' : List Descriptor} (consistent : Consistent ds)
    (same : ∀ d, d ∈ ds' ↔ d ∈ ds) : Consistent ds' := by
  refine ⟨fun d mem d' mem' => ?_, fun d mem d' mem' => ?_⟩
  · exact consistent.single d ((same d).mp mem) d' ((same d').mp mem')
  · exact consistent.apart d ((same d).mp mem) d' ((same d').mp mem')

namespace Table

open Descriptor (Consistent)

/-- The tables answer alike; in which order their maps are does not matter. -/
structure Same (t t' : Table) : Prop where
  infos : ∀ k, t.find? k = t'.find? k
  lexemes : ∀ text, t.byLexeme text = t'.byLexeme text

theorem properlyExtends_iff {short long : String} :
    properlyExtends short long = true ↔ short.toList <+: long.toList ∧ short ≠ long := by
  rw [properlyExtends, Bool.and_eq_true, List.isPrefixOf_iff_prefix, decide_eq_true_eq,
    ← String.length_toList, ← String.length_toList]
  refine and_congr_right fun starts => ?_
  constructor
  · rintro shorter rfl
    exact Nat.lt_irrefl _ shorter
  · intro other
    refine Nat.lt_of_le_of_ne starts.length_le fun same => other ?_
    exact String.toList_injective (starts.eq_of_length same)

section
variable {κ α : Type} [DecidableEq κ] {entries more : List (κ × α)} {e e' : κ × α} {k : κ} {v : α}

def Keyed (entries : List (κ × α)) : Prop :=
  (entries.map Prod.fst).Nodup

theorem mem_insert_iff : e ∈ insert entries e' ↔ e = e' ∨ e ∈ entries ∧ e.1 ≠ e'.1 := by
  simp [insert]

theorem Keyed.insert (keyed : Keyed entries) (e : κ × α) : Keyed (insert entries e) := by
  unfold Keyed Table.insert
  rw [List.map_cons, List.nodup_cons]
  refine ⟨fun mem => ?_, keyed.sublist (List.filter_sublist.map _)⟩
  obtain ⟨e', kept, same⟩ := List.mem_map.mp mem
  exact of_decide_eq_true (List.mem_filter.mp kept).2 same

theorem keyed_collect (entries : List (κ × α)) : Keyed (collect entries) := by
  suffices ∀ before : List (κ × α), Keyed before → Keyed (entries.foldl Table.insert before) from
    this [] List.nodup_nil
  induction entries with
  | nil => exact fun _ keyed => keyed
  | cons e entries ih => exact fun before keyed => ih _ (keyed.insert e)

theorem mem_collect_iff (single : ∀ e ∈ entries, ∀ e' ∈ entries, e.1 = e'.1 → e = e') :
    e ∈ collect entries ↔ e ∈ entries := by
  suffices ∀ before : List (κ × α),
      (∀ e ∈ before ++ entries, ∀ e' ∈ before ++ entries, e.1 = e'.1 → e = e') →
      (e ∈ entries.foldl Table.insert before ↔ e ∈ before ++ entries) from this [] single
  clear single
  induction entries with
  | nil => exact fun before _ => by rw [List.append_nil]; rfl
  | cons first entries ih =>
    intro before single
    have kept (e : κ × α) : e ∈ Table.insert before first ++ entries ↔
        e ∈ before ++ first :: entries := by
      rw [List.mem_append, mem_insert_iff, List.mem_append, List.mem_cons]
      by_cases same : e.1 = first.1
      · have eq (mem : e ∈ before) : e = first :=
          single e (List.mem_append_left _ mem) first
            (List.mem_append_right _ (List.mem_cons_self ..)) same
        tauto
      · tauto
    rw [List.foldl_cons, ih, kept]
    simpa only [kept] using single

theorem lookup_eq_some_iff (keyed : Keyed entries) :
    entries.lookup k = some v ↔ (k, v) ∈ entries := by
  induction entries with
  | nil => simp
  | cons e entries ih =>
    obtain ⟨k', v'⟩ := e
    obtain ⟨new, keyed⟩ := List.nodup_cons.mp keyed
    rw [List.lookup_cons, List.mem_cons]
    by_cases same : k = k'
    · subst same
      have other : (k, v) ∉ entries := fun mem => new (List.mem_map.mpr ⟨_, mem, rfl⟩)
      simp [other, eq_comm]
    · have differs : (k == k') = false := beq_false_of_ne same
      simp [differs, same, ih keyed]

omit [DecidableEq κ] in
theorem Keyed.perm (keyed : Keyed entries) (perm : more.Perm entries) : Keyed more :=
  (perm.map Prod.fst).nodup_iff.mpr keyed

end

section
variable {orders orders' : Orders} {ds ds' : List Descriptor} {d : Descriptor} {k : Kind}
  {text : String}

def infosOf (ds : List Descriptor) : List (Kind × Descriptor) :=
  collect (ds.map fun d => (d.kind, d))

theorem mem_infosOf_iff (consistent : Consistent ds) :
    (k, d) ∈ infosOf ds ↔ d ∈ ds ∧ d.kind = k := by
  unfold infosOf
  rw [mem_collect_iff, List.mem_map]
  · exact ⟨fun ⟨_, mem, same⟩ => by cases same; exact ⟨mem, rfl⟩,
      fun ⟨mem, same⟩ => ⟨d, mem, by rw [same]⟩⟩
  · intro e given e' given' same
    obtain ⟨d, mem, rfl⟩ := List.mem_map.mp given
    obtain ⟨d', mem', rfl⟩ := List.mem_map.mp given'
    rw [consistent.single d mem d' mem' same]

theorem mem_spellings_iff (consistent : Consistent ds) :
    (text, k) ∈ spellings orders (infosOf ds) ↔ ∃ d ∈ ds, d.kind = k ∧ d.lexeme = some text := by
  unfold spellings
  rw [List.mem_filterMap]
  constructor
  · rintro ⟨⟨k', d⟩, mem, same⟩
    obtain ⟨mem, -⟩ := (mem_infosOf_iff consistent).mp ((orders.infos_perm _).subset mem)
    obtain ⟨spelled, isLexeme, same⟩ := Option.map_eq_some_iff.mp same
    cases same
    exact ⟨d, mem, rfl, isLexeme⟩
  · rintro ⟨d, mem, rfl, isLexeme⟩
    refine ⟨(d.kind, d), (orders.infos_perm _).mem_iff.mpr ?_, by rw [isLexeme]; rfl⟩
    exact (mem_infosOf_iff consistent).mpr ⟨mem, rfl⟩

theorem mem_lexemes_iff (consistent : Consistent ds) :
    (text, k) ∈ (ofDescriptors orders ds).lexemes ↔
      ∃ d ∈ ds, d.kind = k ∧ d.lexeme = some text := by
  change (text, k) ∈ collect (spellings orders (infosOf ds)) ↔ _
  rw [mem_collect_iff, mem_spellings_iff consistent]
  rintro ⟨text, k⟩ given ⟨text', k'⟩ given' (rfl : text = text')
  obtain ⟨d, mem, rfl, spelled⟩ := (mem_spellings_iff consistent).mp given
  obtain ⟨d', mem', rfl, spelled'⟩ := (mem_spellings_iff consistent).mp given'
  rw [consistent.apart d mem d' mem' text spelled spelled']

theorem byLexeme_eq_some_iff (consistent : Consistent ds) :
    (ofDescriptors orders ds).byLexeme text = some k ↔
      ∃ d ∈ ds, d.kind = k ∧ d.lexeme = some text :=
  (lookup_eq_some_iff (keyed_collect _)).trans (mem_lexemes_iff consistent)

def extensionsOf (orders : Orders) (ds : List Descriptor) (short : String) : List Kind :=
  extensions orders (ofDescriptors orders ds).lexemes short

theorem find?_eq_some_iff (consistent : Consistent ds) :
    (ofDescriptors orders ds).find? k = some d ↔
      ∃ d' ∈ ds, d'.kind = k ∧ withFollow orders (ofDescriptors orders ds).lexemes d' = d := by
  have keyed : Keyed (ofDescriptors orders ds).infos := by
    have same : (ofDescriptors orders ds).infos.map Prod.fst =
        (orders.infos (infosOf ds)).map Prod.fst := List.map_map
    unfold Keyed
    rw [same]
    exact (keyed_collect _).perm (orders.infos_perm _)
  refine (lookup_eq_some_iff keyed).trans ?_
  change (k, d) ∈ (orders.infos (infosOf ds)).map _ ↔ _
  rw [List.mem_map]
  constructor
  · rintro ⟨⟨k', d'⟩, mem, same⟩
    cases same
    obtain ⟨mem, same⟩ := (mem_infosOf_iff consistent).mp ((orders.infos_perm _).subset mem)
    exact ⟨d', mem, same, rfl⟩
  · rintro ⟨d', mem, rfl, rfl⟩
    refine ⟨(d'.kind, d'), (orders.infos_perm _).mem_iff.mpr ?_, rfl⟩
    exact (mem_infosOf_iff consistent).mpr ⟨mem, rfl⟩

theorem mem_extensionsOf_iff (consistent : Consistent ds) :
    k ∈ extensionsOf orders ds text ↔ ∃ d ∈ ds, d.kind = k ∧
      ∃ long, d.lexeme = some long ∧ text.toList <+: long.toList ∧ text ≠ long := by
  unfold extensionsOf extensions
  rw [(Kind.sort_perm _).mem_iff, List.mem_map]
  constructor
  · rintro ⟨⟨long, k⟩, kept, rfl⟩
    obtain ⟨given, longer⟩ := List.mem_filter.mp kept
    obtain ⟨d, mem, rfl, spelled⟩ :=
      (mem_lexemes_iff consistent).mp ((orders.lexemes_perm _).subset given)
    exact ⟨d, mem, rfl, long, spelled, properlyExtends_iff.mp longer⟩
  · rintro ⟨d, mem, rfl, long, spelled, longer⟩
    refine ⟨(long, d.kind), List.mem_filter.mpr ⟨?_, properlyExtends_iff.mpr longer⟩, rfl⟩
    exact (orders.lexemes_perm _).mem_iff.mpr
      ((mem_lexemes_iff consistent).mpr ⟨d, mem, rfl, spelled⟩)

theorem extensionsOf_pairwise_before (consistent : Consistent ds) (text : String) :
    (extensionsOf orders ds text).Pairwise Kind.Before := by
  -- A kind has one spelling, so it is not found twice among the entries of the map.
  have distinct : (extensionsOf orders ds text).Nodup := by
    unfold extensionsOf extensions
    rw [(Kind.sort_perm _).nodup_iff]
    refine List.Nodup.map_on ?_ (List.Nodup.filter _ ?_)
    · rintro ⟨long, k⟩ kept ⟨long', k'⟩ kept' (rfl : k = k')
      have spelled {long : String} (kept : (long, k) ∈ (orders.lexemes
          (ofDescriptors orders ds).lexemes).filter fun e => properlyExtends text e.1) :=
        (mem_lexemes_iff consistent).mp
          ((orders.lexemes_perm _).subset (List.mem_filter.mp kept).1)
      obtain ⟨d, mem, isKind, spells⟩ := spelled kept
      obtain ⟨d', mem', isKind', spells'⟩ := spelled kept'
      obtain rfl := consistent.single d mem d' mem' (isKind.trans isKind'.symm)
      rw [Option.some.inj (spells.symm.trans spells')]
    · exact (orders.lexemes_perm _).nodup_iff.mpr (keyed_collect _).of_map
  have sorted : (extensionsOf orders ds text).Pairwise fun k l => k.le l = true :=
    Kind.sort_pairwise _
  exact sorted.imp₂ (fun _ _ => Kind.before_of_le) distinct

/-- Descriptors in another order, or given more often, make the same table, in whatever orders the
maps are gone through. -/
theorem same_ofDescriptors (consistent : Consistent ds) (same : ∀ d, d ∈ ds' ↔ d ∈ ds) :
    (ofDescriptors orders' ds').Same (ofDescriptors orders ds) := by
  have consistent' := consistent.congr same
  constructor
  · intro k
    have follow (d : Descriptor) :
        withFollow orders' (ofDescriptors orders' ds').lexemes d =
          withFollow orders (ofDescriptors orders ds).lexemes d := by
      unfold withFollow
      split
      · rfl
      · rename_i short _
        -- Two sorted lists of the same kinds without repetitions are equal.
        have sorted : extensionsOf orders' ds' short = extensionsOf orders ds short :=
          Kind.eq_of_pairwise_before (extensionsOf_pairwise_before consistent' short)
            (extensionsOf_pairwise_before consistent short) fun k => by
              simp only [mem_extensionsOf_iff consistent', mem_extensionsOf_iff consistent, same]
        exact congrArg (fun follow => { d with follow := follow }) sorted
    ext d
    rw [find?_eq_some_iff consistent', find?_eq_some_iff consistent]
    simp only [same, follow]
  · intro text
    ext k
    rw [byLexeme_eq_some_iff consistent', byLexeme_eq_some_iff consistent]
    simp only [same]

theorem follow_eq_some (consistent : Consistent ds) (mem : d ∈ ds)
    (spelled : d.lexeme = some text) :
    (ofDescriptors orders ds).follow d.kind = some (extensionsOf orders ds text) := by
  unfold follow
  rw [(find?_eq_some_iff consistent).mpr ⟨d, mem, rfl, rfl⟩, Option.map_some]
  unfold withFollow
  rw [spelled]
  rfl

/-- A table of consistent descriptors is the same for every list of them, whatever the orders are in
which hash maps are gone through. It finds a kind by a text just if the kind is spelled so, and
behind a kind with a spelling there follow, in the order of the kinds, those whose spelling starts
with this one and goes on. -/
theorem ofDescriptors_describes (consistent : Consistent ds) (orders : Orders) :
    (∀ orders' ds', (∀ d, d ∈ ds' ↔ d ∈ ds) →
        (ofDescriptors orders' ds').Same (ofDescriptors orders ds)) ∧
      (∀ text k, (ofDescriptors orders ds).byLexeme text = some k ↔
        ∃ d ∈ ds, d.kind = k ∧ d.lexeme = some text) ∧
      ∀ d ∈ ds, ∀ short, d.lexeme = some short → ∃ follow,
        (ofDescriptors orders ds).follow d.kind = some follow ∧ follow.Pairwise Kind.Before ∧
          ∀ k, k ∈ follow ↔ ∃ d' ∈ ds, d'.kind = k ∧
            ∃ long, d'.lexeme = some long ∧ short.toList <+: long.toList ∧ short ≠ long := by
  refine ⟨fun orders' ds' same => same_ofDescriptors consistent same,
    fun text k => byLexeme_eq_some_iff consistent, fun d mem short spelled => ?_⟩
  exact ⟨extensionsOf orders ds short, follow_eq_some consistent mem spelled,
    extensionsOf_pairwise_before consistent short, fun k => mem_extensionsOf_iff consistent⟩

/-- Three operators that start alike, the longest first, and a kind without a spelling. -/
def stars : List Descriptor :=
  [.assignment .starEqual "**=" none, .binary .starStar "**" 8 .power,
    .binary .star "*" 7 .multiply, .plain .int "an integer number"]

def Orders.backwards : Orders :=
  ⟨List.reverse, List.reverse, List.reverse_perm, List.reverse_perm⟩

/-- Given twice, in the order of their spellings and against it, they make the same table, whether
hash maps are gone through from the start or from the end. -/
theorem ofDescriptors_describes_stars :
    Consistent stars ∧
      (ofDescriptors .backwards (stars.reverse ++ stars)).Same (ofDescriptors .unchanged stars) ∧
      (ofDescriptors .unchanged stars).byLexeme "**" = some .starStar ∧
      ∃ follow, (ofDescriptors .unchanged stars).follow .star = some follow ∧
        follow.Pairwise Kind.Before ∧ .starStar ∈ follow ∧ .starEqual ∈ follow := by
  have consistent : Consistent stars := ⟨by decide, by decide⟩
  have star : Descriptor.binary .star "*" 7 .multiply ∈ stars := by decide
  have starStar : Descriptor.binary .starStar "**" 8 .power ∈ stars := by decide
  have starEqual : Descriptor.assignment .starEqual "**=" none ∈ stars := by decide
  obtain ⟨same, found, longer⟩ := ofDescriptors_describes consistent .unchanged
  obtain ⟨follow, isFollow, sorted, mem⟩ := longer _ star "*" rfl
  refine ⟨consistent, same _ _ fun d => ?_, (found _ _).mpr ⟨_, starStar, rfl, rfl⟩,
    follow, isFollow, sorted, ?_, ?_⟩
  · rw [List.mem_append, List.mem_reverse, or_self]
  · exact (mem _).mpr ⟨_, starStar, rfl, "**", rfl, by decide, by decide⟩
  · exact (mem _).mpr ⟨_, starEqual, rfl, "**=", rfl, by decide, by decide⟩

theorem consistent_standard : Consistent (Kind.all.map Kind.descriptor) :=
  ⟨by decide +kernel, by decide +kernel⟩

theorem standard_byLexeme_eq_some_iff :
    standard.byLexeme text = some k ↔ k.lexeme = some text := by
  refine (byLexeme_eq_some_iff consistent_standard).trans ?_
  simp only [List.mem_map]
  constructor
  · rintro ⟨_, ⟨k', -, rfl⟩, same, spelled⟩
    rw [← same, k'.descriptor_kind]
    exact spelled
  · exact fun spelled => ⟨_, ⟨k, k.mem_all, rfl⟩, k.descriptor_kind, spelled⟩

end

end Table

theorem Kind.eq_of_lexeme_eq {k l : Kind} {text : String} (spelled : k.lexeme = some text)
    (spelled' : l.lexeme = some text) : k = l := by
  have found := Table.standard_byLexeme_eq_some_iff.mpr spelled
  rw [Table.standard_byLexeme_eq_some_iff.mpr spelled'] at found
  exact (Option.some.inj found).symm

theorem Kind.follow_eq {k : Kind} {text : String} (spelled : k.lexeme = some text) :
    k.follow = all.filter fun l => l.lexeme.any (Table.properlyExtends text) := by
  have mem : k.descriptor ∈ all.map descriptor := List.mem_map_of_mem k.mem_all
  have found : Table.standard.follow k.descriptor.kind =
      some (Table.extensionsOf .unchanged (all.map descriptor) text) :=
    Table.follow_eq_some Table.consistent_standard mem spelled
  rw [k.descriptor_kind] at found
  have same : k.follow = Table.extensionsOf .unchanged (all.map descriptor) text := by
    unfold follow
    rw [show Table.standard.follow k = _ from found]
    rfl
  rw [same]
  refine eq_of_pairwise_before (Table.extensionsOf_pairwise_before Table.consistent_standard text)
    (all_pairwise_before.filter _) fun l => ?_
  rw [Table.mem_extensionsOf_iff Table.consistent_standard, List.mem_filter, Option.any_eq_true]
  simp only [List.mem_map, Table.properlyExtends_iff, l.mem_all, true_and]
  constructor
  · rintro ⟨_, ⟨l', -, rfl⟩, same, longer⟩
    rw [← same, l'.descriptor_kind]
    exact longer
  · exact fun longer => ⟨_, ⟨l, l.mem_all, rfl⟩, l.descriptor_kind, longer⟩

end Calculator
