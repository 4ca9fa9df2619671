import Mathlib.Data.List.Forall2
import SolidityBuild.TextMap

/-!
Look-ups in maps by text. An insertion changes what is found under its own key
and under no other, and the keys are the texts under which something is found.
-/

namespace SolidityBuild.TextMap

variable {α β : Type}

theorem lookup_insertEntry_self (key : String) (value : α) (entries : List (String × α)) :
    (insertEntry key value entries).lookup key = some value := by
  induction entries with
  | nil => simp [insertEntry]
  | cons head rest ih =>
    obtain ⟨k, v⟩ := head
    simp only [insertEntry]
    split
    · simp
    · split
      next hlt =>
        have hne : (key == k) = false := beq_false_of_ne fun h => String.lt_irrefl k (h ▸ hlt)
        simp [List.lookup_cons, hne, ih]
      next => simp

theorem lookup_insertEntry_of_ne {key other : String} (hne : other ≠ key) (value : α)
    (entries : List (String × α)) :
    (insertEntry key value entries).lookup other = entries.lookup other := by
  have hbeq : (other == key) = false := beq_false_of_ne hne
  induction entries with
  | nil => simp [insertEntry, List.lookup_cons, hbeq]
  | cons head rest ih =>
    obtain ⟨k, v⟩ := head
    simp only [insertEntry]
    split
    · simp [List.lookup_cons, hbeq]
    next hnlt =>
      split
      next => simp only [List.lookup_cons, ih]
      next hnlt' =>
        have hkey : key = k := String.le_antisymm (String.not_lt.1 hnlt') (String.not_lt.1 hnlt)
        subst hkey
        simp [List.lookup_cons, hbeq]

theorem lookup_eq_some_iff_mem {κ : Type} [BEq κ] [LawfulBEq κ] {entries : List (κ × α)}
    (hnodup : (entries.map Prod.fst).Nodup) {key : κ} {value : α} :
    entries.lookup key = some value ↔ (key, value) ∈ entries := by
  rw [List.lookup_eq_some_iff]
  constructor
  · rintro ⟨front, back, rfl, -⟩
    exact List.mem_append_right front List.mem_cons_self
  · intro hmem
    obtain ⟨front, back, rfl⟩ := List.append_of_mem hmem
    refine ⟨front, back, rfl, fun entry hentry => ?_⟩
    rw [List.map_append, List.nodup_append] at hnodup
    have hne := hnodup.2.2 entry.1 (List.mem_map_of_mem hentry) key (by simp)
    simpa using Ne.symm hne

theorem nodup_keys (map : TextMap α) : (map.entries.map Prod.fst).Nodup :=
  List.pairwise_map.2 (map.sorted.imp fun {a b} hlt heq => by
    rw [heq] at hlt
    exact String.lt_irrefl b.1 hlt)

theorem mem_entries_iff (map : TextMap α) {key : String} {value : α} :
    (key, value) ∈ map.entries ↔ map.get? key = some value :=
  (lookup_eq_some_iff_mem map.nodup_keys).symm

@[simp] theorem get?_empty (key : String) : (empty : TextMap α).get? key = none := rfl

@[simp] theorem get?_insert_self (map : TextMap α) (key : String) (value : α) :
    (map.insert key value).get? key = some value :=
  lookup_insertEntry_self key value map.entries

theorem get?_insert_of_ne (map : TextMap α) {key other : String} (hne : other ≠ key) (value : α) :
    (map.insert key value).get? other = map.get? other :=
  lookup_insertEntry_of_ne hne value map.entries

theorem get?_insert (map : TextMap α) (key other : String) (value : α) :
    (map.insert key value).get? other = if other = key then some value else map.get? other := by
  split
  next h => rw [h, get?_insert_self]
  next h => exact get?_insert_of_ne map h value

/-- Of the entries of a list with one key, the last is in the map. -/
theorem get?_ofList (entries : List (String × α)) (key : String) :
    (ofList entries).get? key = entries.reverse.lookup key := by
  rw [← List.reverse_reverse entries]
  induction entries.reverse with
  | nil => rfl
  | cons entry rest ih =>
    obtain ⟨k, v⟩ := entry
    rw [List.reverse_cons, ofList, List.foldl_append, ← ofList, List.foldl_cons, List.foldl_nil,
      get?_insert, ih, List.reverse_reverse, List.reverse_append, List.reverse_reverse]
    by_cases hkey : key = k
    · simp [hkey]
    · simp [List.lookup_cons, hkey, beq_false_of_ne hkey]

/-- The order of entries with distinct keys does not matter. -/
theorem lookup_reverse {entries : List (String × α)} (hnodup : (entries.map Prod.fst).Nodup)
    (key : String) : entries.reverse.lookup key = entries.lookup key := by
  have hreverse : (entries.reverse.map Prod.fst).Nodup := by
    rw [List.map_reverse]
    exact List.pairwise_reverse.2 (hnodup.imp Ne.symm)
  refine Option.ext fun value => ?_
  rw [lookup_eq_some_iff_mem hreverse, lookup_eq_some_iff_mem hnodup, List.mem_reverse]

theorem mem_entries_ofList {entries : List (String × α)} (hnodup : (entries.map Prod.fst).Nodup)
    {entry : String × α} : entry ∈ (ofList entries).entries ↔ entry ∈ entries := by
  rw [mem_entries_iff, get?_ofList, lookup_reverse hnodup, lookup_eq_some_iff_mem hnodup]

theorem mem_of_mem_ofList {entries : List (String × α)} {entry : String × α}
    (h : entry ∈ (ofList entries).entries) : entry ∈ entries := by
  rw [mem_entries_iff, get?_ofList, List.lookup_eq_some_iff] at h
  obtain ⟨front, back, hentries, -⟩ := h
  rw [← List.mem_reverse, hentries]
  exact List.mem_append_right front List.mem_cons_self

/-- Maps that find the same under every key are equal. -/
theorem eq_of_get?_eq {first second : TextMap α} (h : ∀ key, first.get? key = second.get? key) :
    first = second := by
  obtain ⟨entries, sorted⟩ := first
  obtain ⟨entries', sorted'⟩ := second
  have hnodup (map : TextMap α) : map.entries.Nodup :=
    (List.pairwise_map.1 map.nodup_keys).imp fun hne heq => hne (congrArg Prod.fst heq)
  have hperm : entries.Perm entries' := by
    refine (List.perm_ext_iff_of_nodup (hnodup ⟨entries, sorted⟩) (hnodup ⟨entries', sorted'⟩)).2 ?_
    rintro ⟨key, value⟩
    rw [mem_entries_iff ⟨entries, sorted⟩, mem_entries_iff ⟨entries', sorted'⟩, h]
  have hentries : entries = entries' :=
    hperm.eq_of_pairwise (fun a b _ _ hlt hgt => absurd (String.lt_trans hlt hgt)
      (String.lt_irrefl _)) sorted sorted'
  subst hentries
  rfl

theorem lookup_map_snd (f : α → β) (entries : List (String × α)) (key : String) :
    (entries.map fun e => (e.1, f e.2)).lookup key = (entries.lookup key).map f := by
  induction entries with
  | nil => rfl
  | cons e rest ih =>
    rw [List.map_cons, List.lookup_cons, List.lookup_cons, ih]
    cases key == e.1 <;> rfl

theorem get?_map (f : α → β) (map : TextMap α) (key : String) :
    (map.map f).get? key = (map.get? key).map f :=
  lookup_map_snd f map.entries key

/-- A filter that looks at keys alone leaves all that is found under a key, or nothing. -/
theorem lookup_filter {κ : Type} [BEq κ] [LawfulBEq κ] (p : κ → Bool) (entries : List (κ × α))
    (key : κ) :
    (entries.filter fun e => p e.1).lookup key = if p key then entries.lookup key else none := by
  induction entries with
  | nil => simp
  | cons e rest ih =>
    obtain ⟨k, v⟩ := e
    by_cases hkey : key = k
    · subst hkey
      cases hp : p key with
      | true => simp [hp]
      | false => simpa [hp] using ih
    · rw [List.lookup_cons, beq_false_of_ne hkey, ← ih, List.filter_cons]
      split
      · rw [List.lookup_cons, beq_false_of_ne hkey]
      · rfl

/-- Maps that hold related values under every key have related entries. -/
theorem forall₂_of_rel_get? {R : α → β → Prop} {first : TextMap α}
    {second : TextMap β} (h : ∀ key, Option.Rel R (first.get? key) (second.get? key)) :
    List.Forall₂ (fun e f => e.1 = f.1 ∧ R e.2 f.2) first.entries second.entries := by
  have hkeys : first.keys = second.keys := by
    have hsame : first.map (fun _ => ()) = second.map fun _ => () :=
      eq_of_get?_eq fun key => by
        rw [get?_map, get?_map]
        have hkey := h key
        generalize first.get? key = a at hkey
        generalize second.get? key = b at hkey
        cases hkey <;> rfl
    have hentries := congrArg keys hsame
    simpa [keys, TextMap.map, Function.comp_def] using hentries
  have hlength : first.entries.length = second.entries.length := by
    simpa [keys] using congrArg List.length hkeys
  refine List.forall₂_iff_get.2 ⟨hlength, fun i hi hi' => ?_⟩
  have hkey : (first.entries.get ⟨i, hi⟩).1 = (second.entries.get ⟨i, hi'⟩).1 := by
    have hget := congrArg (·[i]?) hkeys
    simpa [keys, hi, hi'] using hget
  have hrel := h (first.entries.get ⟨i, hi⟩).1
  rw [first.mem_entries_iff.1 (List.get_mem _ ⟨i, hi⟩), hkey,
    second.mem_entries_iff.1 (List.get_mem _ ⟨i, hi'⟩)] at hrel
  cases hrel with
  | some hR => exact ⟨hkey, hR⟩

/-- A map is made again of its own entries. -/
@[simp] theorem ofList_entries (map : TextMap α) : ofList map.entries = map := by
  refine eq_of_get?_eq fun key => Option.ext fun value => ?_
  rw [← mem_entries_iff, ← mem_entries_iff, mem_entries_ofList map.nodup_keys]

/-- Entries may be left out by their keys before the map is made or after. -/
theorem entries_ofList_filter (p : String → Bool) (entries : List (String × α)) :
    (ofList (entries.filter fun e => p e.1)).entries =
      (ofList entries).entries.filter fun e => p e.1 := by
  have hsame : ofList (entries.filter fun e => p e.1) =
      ⟨(ofList entries).entries.filter fun e => p e.1, (ofList entries).sorted.filter _⟩ := by
    refine eq_of_get?_eq fun key => ?_
    have hkept := lookup_filter p (ofList entries).entries key
    rw [get?_ofList, ← List.filter_reverse, lookup_filter, get?, hkept, ← get?, get?_ofList]
  rw [hsame]

/-- What is collected entry by entry does not change if entries are put between the
others that nothing is collected from. -/
theorem flatMap_eq_of_sorted {entries entries' : List (String × α)}
    (hsorted : entries.Pairwise fun a b => a.1 < b.1)
    (hsorted' : entries'.Pairwise fun a b => a.1 < b.1) {f f' : String × α → List β}
    (hkept : ∀ e ∈ entries, ∃ e' ∈ entries', e'.1 = e.1 ∧ f' e' = f e)
    (hnew : ∀ e' ∈ entries', (∀ e ∈ entries, e.1 ≠ e'.1) → f' e' = []) :
    entries'.flatMap f' = entries.flatMap f := by
  induction entries' generalizing entries with
  | nil =>
    cases entries with
    | nil => rfl
    | cons e rest =>
      obtain ⟨_, hmem, -⟩ := hkept e List.mem_cons_self
      cases hmem
  | cons e' rest' ih =>
    obtain ⟨hleast', hrest'⟩ := List.pairwise_cons.1 hsorted'
    by_cases hhead : ∃ e ∈ entries, e.1 = e'.1
    · cases entries with
      | nil => simp at hhead
      | cons e rest =>
        obtain ⟨hleast, hrest⟩ := List.pairwise_cons.1 hsorted
        -- the first entries have one key, since neither can stand behind the other
        obtain ⟨partner, hpartner, hkey, hvalue⟩ := hkept e List.mem_cons_self
        obtain rfl : partner = e' := by
          rcases List.mem_cons.1 hpartner with heq | hpartner
          · exact heq
          · obtain ⟨other, hother, hkey'⟩ := hhead
            have hlt := hleast' partner hpartner
            rw [hkey] at hlt
            rcases List.mem_cons.1 hother with rfl | hother
            · exact absurd (hkey' ▸ hlt) (String.lt_irrefl _)
            · exact absurd (String.lt_trans hlt (hkey' ▸ hleast other hother)) (String.lt_irrefl _)
        rw [List.flatMap_cons, List.flatMap_cons, hvalue, ih hrest hrest' ?_ ?_]
        · intro other hother
          obtain ⟨other', hother', hsame, heq⟩ := hkept other (List.mem_cons_of_mem e hother)
          rcases List.mem_cons.1 hother' with rfl | hother'
          · have hlt := hleast other hother
            rw [← hsame, hkey] at hlt
            exact absurd hlt (String.lt_irrefl _)
          · exact ⟨other', hother', hsame, heq⟩
        · intro other' hother' hnone
          refine hnew other' (List.mem_cons_of_mem partner hother') ?_
          refine List.forall_mem_cons.2 ⟨fun hsame => ?_, hnone⟩
          have hlt := hleast' other' hother'
          rw [hkey, hsame] at hlt
          exact String.lt_irrefl _ hlt
    · have hnone : ∀ e ∈ entries, e.1 ≠ e'.1 := fun e he hkey => hhead ⟨e, he, hkey⟩
      rw [List.flatMap_cons, hnew e' List.mem_cons_self hnone, List.nil_append]
      refine ih hsorted hrest' (fun e he => ?_) fun other' hother' =>
        hnew other' (List.mem_cons_of_mem e' hother')
      obtain ⟨partner, hpartner, hkey, hvalue⟩ := hkept e he
      rcases List.mem_cons.1 hpartner with rfl | hpartner
      · exact absurd hkey.symm (hnone e he)
      · exact ⟨partner, hpartner, hkey, hvalue⟩

theorem contains_iff (map : TextMap α) (key : String) :
    map.contains key = true ↔ ∃ value, map.get? key = some value := by
  rw [contains, Option.isSome_iff_exists]

theorem contains_insert (map : TextMap α) (key other : String) (value : α) :
    (map.insert key value).contains other = true ↔ other = key ∨ map.contains other = true := by
  simp only [contains, get?_insert]
  split
  next h => simp [h]
  next h => simp [h]

theorem mem_keys (map : TextMap α) (key : String) :
    key ∈ map.keys ↔ map.contains key = true := by
  rw [keys, contains, get?, List.lookup_isSome_iff, List.mem_map]
  constructor
  · rintro ⟨entry, hentry, rfl⟩
    exact ⟨entry, hentry, by simp⟩
  · rintro ⟨entry, hentry, hkey⟩
    exact ⟨entry, hentry, (by simpa using hkey : key = entry.1).symm⟩

end SolidityBuild.TextMap
