import SolidityBuild.Proofs.TypeScript.BaseType

/-!
Every way to write a base type. Reading a name gives the base type with that name, but
the number behind the letters is read like any other: a plus sign and zeros in front of
it are let through. With the aliases, these are all the names that a mapping is given
expressions under and that types of parameters are looked up by.
-/

namespace SolidityBuild.TypeScript

namespace BaseType

open Text

variable {b : BaseType} {s : String}

/-- The letters that a name begins with. -/
def word : BaseType → List Char
  | uint _ => ['u', 'i', 'n', 't']
  | int _ => ['i', 'n', 't']
  | fixedBytes _ => ['b', 'y', 't', 'e', 's']
  | b => b.name.toList

/-- The number behind them: the bits of an integer, or the length of a byte string. -/
def number? : BaseType → Option Nat
  | uint step | int step => some (width step)
  | fixedBytes step => some (step.val + 1)
  | address | string | bool | bytes => none

theorem toList_name {n : Nat} (h : b.number? = some n) :
    b.name.toList = b.word ++ (Decimal.print n).toList := by
  cases b with
  | uint step | int step | fixedBytes step =>
    obtain rfl := Option.some.inj h
    exact String.toList_append
  | address | string | bool | bytes => cases h

/-- A name with the number written in any way it can be. -/
def IsWritten (s : String) (b : BaseType) : Prop :=
  ∃ n number, b.number? = some n ∧ s.toList = b.word ++ number ∧ Decimal.Denotes number n

theorem isWritten_of_ofName? (h : ofName? s = some b) : s = b.name ∨ IsWritten s b := by
  rcases ofName?_cases h with ⟨-, hname⟩ | ⟨number, step, hlist, hstep, rfl⟩ |
    ⟨number, step, hlist, hstep, rfl⟩ | ⟨number, step, hlist, hstep, rfl⟩
  · exact .inl hname
  · exact .inr ⟨_, number, rfl, hlist, stepOfLength?_eq_some_iff.1 hstep⟩
  · exact .inr ⟨_, number, rfl, hlist, stepOfBits?_eq_some_iff.1 hstep⟩
  · exact .inr ⟨_, number, rfl, hlist, stepOfBits?_eq_some_iff.1 hstep⟩

theorem IsWritten.ofName?_eq (h : IsWritten s b) : ofName? s = some b := by
  obtain ⟨n, number, hnumber, hlist, hdenotes⟩ := h
  cases b with
  | uint step =>
    obtain rfl := Option.some.inj hnumber
    rw [ofName?_of_uint hlist, stepOfBits?_eq_some_iff.2 hdenotes, Option.map_some]
  | int step =>
    obtain rfl := Option.some.inj hnumber
    rw [ofName?_of_int hlist, stepOfBits?_eq_some_iff.2 hdenotes, Option.map_some]
  | fixedBytes step =>
    obtain rfl := Option.some.inj hnumber
    rw [ofName?_of_bytes hdenotes.ne_nil hlist, stepOfLength?_eq_some_iff.2 hdenotes,
      Option.map_some]
  | address | string | bool | bytes => cases hnumber

/-- A name with something in front of the number. -/
def IsPadded (s : String) (b : BaseType) : Prop :=
  ∃ n plus zeros, b.number? = some n ∧ Decimal.padding plus zeros ≠ [] ∧
    s.toList = b.word ++ (Decimal.padding plus zeros ++ (Decimal.print n).toList)

theorem IsPadded.isWritten (h : IsPadded s b) : IsWritten s b := by
  obtain ⟨n, plus, zeros, hnumber, -, hlist⟩ := h
  exact ⟨n, _, hnumber, hlist, Decimal.denotes_iff.2 ⟨plus, zeros, rfl⟩⟩

theorem IsPadded.ne_name (h : IsPadded s b) : s ≠ b.name := by
  obtain ⟨n, plus, zeros, hnumber, hpadding, hlist⟩ := h
  rintro rfl
  rw [toList_name hnumber, List.append_cancel_left_eq, List.self_eq_append_left] at hlist
  exact hpadding hlist

theorem isWritten_cases (h : IsWritten s b) : s = b.name ∨ IsPadded s b := by
  obtain ⟨n, number, hnumber, hlist, hdenotes⟩ := h
  obtain ⟨plus, zeros, rfl⟩ := Decimal.denotes_iff.1 hdenotes
  by_cases hpadding : Decimal.padding plus zeros = []
  · apply Or.inl
    apply String.toList_injective
    rw [hlist, toList_name hnumber, hpadding, List.nil_append]
  · exact .inr ⟨n, plus, zeros, hnumber, hpadding, hlist⟩

theorem ofName?_eq_some_iff : ofName? s = some b ↔ s = b.name ∨ IsPadded s b := by
  constructor
  · intro h
    rcases isWritten_of_ofName? h with hname | hwritten
    · exact .inl hname
    · exact isWritten_cases hwritten
  · rintro (rfl | hpadded)
    · exact ofName?_name b
    · exact hpadded.isWritten.ofName?_eq

/-! ## Names with aliases -/

/-- A name of a base type: an alias, its own name, or that with a padded number. -/
def IsNameOf (s : String) (b : BaseType) : Prop :=
  (s, b.name) ∈ aliases ∨ s = b.name ∨ IsPadded s b

/-- What an alias stands for is the name of a base type. -/
theorem named?_alias {other : String} (h : (s, other) ∈ aliases) :
    named? s = some b ↔ b.name = other := by
  have hall : ∀ a ∈ aliases, (ofName? a.2).map name = some a.2 := by decide
  obtain ⟨b', hb', hname⟩ := Option.map_eq_some_iff.1 (hall _ h)
  rw [named?, normalize_alias h]
  constructor
  · intro hb
    rw [hb, Option.some.injEq] at hb'
    rw [hb', hname]
  · rintro rfl
    exact ofName?_name b

theorem named?_eq_some_iff : named? s = some b ↔ IsNameOf s b := by
  rcases normalize_cases s with hself | halias
  · rw [named?, hself, ofName?_eq_some_iff]
    constructor
    · exact .inr
    · rintro (halias | hname)
      · exact .inl (hself.symm.trans (normalize_alias halias))
      · exact hname
  · rw [named?_alias halias]
    constructor
    · intro hname
      exact .inl (hname ▸ halias)
    · rintro (halias' | hname)
      · exact (normalize_alias halias').symm
      · -- an alias is no name that is read
        have hread := ofName?_eq_some_iff.2 hname
        rw [ofName?_alias halias] at hread
        cases hread

theorem named?_eq_none_iff : named? s = none ↔ ∀ b, ¬ IsNameOf s b := by
  simp only [Option.eq_none_iff_forall_ne_some, ne_eq, named?_eq_some_iff]

theorem normalize_of_no_name (h : ∀ b, ¬ IsNameOf s b) : normalize s = s := by
  rcases normalize_cases s with hself | halias
  · exact hself
  · have hall : ∀ a ∈ aliases, named? a.1 ≠ none := by decide
    exact (hall _ halias (named?_eq_none_iff.2 h)).elim

end BaseType

namespace Mapping

open BaseType (named? normalize IsNameOf)

variable {m m' : Mapping} {s expr : String}

theorem setNamed_eq_ok_iff :
    m.setNamed s expr = .ok m' ↔ ∃ b, IsNameOf s b ∧ m' = m.set b expr := by
  simp only [← BaseType.named?_eq_some_iff]
  rw [setNamed]
  split
  next base hbase => simp [hbase, eq_comm]
  next hnone => simp [hnone]

/-- A name that is refused is reported as it is. -/
theorem setNamed_eq_error_iff {e : UnknownBaseType} :
    m.setNamed s expr = .error e ↔ (∀ b, ¬ IsNameOf s b) ∧ e = ⟨s⟩ := by
  rw [← BaseType.named?_eq_none_iff, setNamed]
  split
  next base hbase => simp [hbase]
  next hnone =>
    have hself := BaseType.normalize_of_no_name (BaseType.named?_eq_none_iff.1 hnone)
    simp [hnone, hself, eq_comm]

theorem lookup?_eq_some_iff :
    m.lookup? s = some expr ↔ ∃ b, IsNameOf s b ∧ m.get? b = some expr := by
  rw [lookup?, Option.bind_eq_some_iff]
  simp only [BaseType.named?_eq_some_iff]

end Mapping

namespace BaseType

/-- A name is read as a base type if and only if it is the name of that, with or without a
plus sign and zeros in front of the number; so just the padded names are read though they
are no names of base types. Names, padded names and aliases are what a mapping takes
expressions for and what they are looked up by. Any other name is refused, and reported
as it is. -/
theorem names_read_iff (s : String) :
    (∀ b, ofName? s = some b ↔ b ∈ all ∧ (s = b.name ∨ IsPadded s b)) ∧
    ((∀ b, ofName? s = some b ↔ b ∈ all ∧ s = b.name) ↔ ∀ b, ¬ IsPadded s b) ∧
    (∀ m m' expr, Mapping.setNamed m s expr = .ok m' ↔
      ∃ b, IsNameOf s b ∧ m' = m.set b expr) ∧
    (∀ m expr e, Mapping.setNamed m s expr = .error e ↔
      (∀ b, ¬ IsNameOf s b) ∧ e = ⟨s⟩) ∧
    ∀ m expr, Mapping.lookup? m s = some expr ↔ ∃ b, IsNameOf s b ∧ m.get? b = some expr := by
  refine ⟨?_, ?_, ?_, ?_, ?_⟩
  · intro b
    rw [ofName?_eq_some_iff, and_iff_right (mem_all b)]
  · constructor
    · intro honly b hpadded
      exact hpadded.ne_name ((honly b).1 (ofName?_eq_some_iff.2 (.inr hpadded))).2
    · intro hnone b
      rw [ofName?_eq_some_iff, and_iff_right (mem_all b), or_iff_left (hnone b)]
  · intro m m' expr
    exact Mapping.setNamed_eq_ok_iff
  · intro m expr e
    exact Mapping.setNamed_eq_error_iff
  · intro m expr
    exact Mapping.lookup?_eq_some_iff

/-- `uint+8` is read as `uint8` and `bytes01` as `bytes1`, and an expression that is set
under the one name is found under the other. -/
theorem padded_names_read :
    ofName? "uint+8" = some (.uint 0) ∧ ofName? "bytes01" = some (.fixedBytes 0) ∧
    ¬ (∀ b, ofName? "uint+8" = some b ↔ b ∈ all ∧ "uint+8" = b.name) ∧
    Mapping.setNamed .empty "uint+8" "number" = .ok (Mapping.empty.set (.uint 0) "number") ∧
    (Mapping.empty.set (.uint 0) "number").lookup? "uint8" = some "number" := by
  have hplus : IsPadded "uint+8" (.uint 0) :=
    ⟨8, true, 0, rfl, by decide, by decide⟩
  have hzero : IsPadded "bytes01" (.fixedBytes 0) :=
    ⟨1, false, 1, rfl, by decide, by decide⟩
  obtain ⟨hread, honly, hset, -, -⟩ := names_read_iff "uint+8"
  obtain ⟨-, -, -, -, hlookup⟩ := names_read_iff "uint8"
  refine ⟨?_, ?_, ?_, ?_, ?_⟩
  · exact (hread _).2 ⟨mem_all _, .inr hplus⟩
  · exact ((names_read_iff "bytes01").1 _).2 ⟨mem_all _, .inr hzero⟩
  · intro hclosed
    exact honly.1 hclosed _ hplus
  · exact (hset _ _ _).2 ⟨_, .inr (.inr hplus), rfl⟩
  · exact (hlookup _ _).2 ⟨.uint 0, .inr (.inl (by decide)), rfl⟩

end BaseType

end SolidityBuild.TypeScript
