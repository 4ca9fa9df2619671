/-!
Finite maps with text keys, kept in the order of their keys, so that maps with
equal entries are equal. The order of keys is that of their code points, which
is also the order of their UTF-8 bytes.
-/

namespace SolidityBuild

/-- A finite map from texts, as its entries in key order. -/
structure TextMap (α : Type) where
  entries : List (String × α)
  sorted : entries.Pairwise fun a b => a.1 < b.1
deriving DecidableEq

namespace TextMap

variable {α β : Type}

/-- Put an entry in its place, in the place of one with the same key. -/
def insertEntry (key : String) (value : α) : List (String × α) → List (String × α)
  | [] => [(key, value)]
  | (k, v) :: rest =>
    if key < k then (key, value) :: (k, v) :: rest
    else if k < key then (k, v) :: insertEntry key value rest
    else (key, value) :: rest

theorem mem_insertEntry {key : String} {value : α} {entries : List (String × α)}
    {e : String × α} (h : e ∈ insertEntry key value entries) :
    e = (key, value) ∨ e ∈ entries := by
  induction entries with
  | nil => simpa [insertEntry] using h
  | cons head rest ih =>
    obtain ⟨k, v⟩ := head
    simp only [insertEntry] at h
    split at h
    · simpa using h
    · split at h
      · rcases List.mem_cons.1 h with rfl | h
        · simp
        · rcases ih h with rfl | h
          · simp
          · simp [h]
      · rcases List.mem_cons.1 h with rfl | h
        · simp
        · simp [h]

theorem insertEntry_sorted {key : String} {value : α} {entries : List (String × α)}
    (h : entries.Pairwise fun a b => a.1 < b.1) :
    (insertEntry key value entries).Pairwise fun a b => a.1 < b.1 := by
  induction entries with
  | nil => simp [insertEntry]
  | cons head rest ih =>
    obtain ⟨k, v⟩ := head
    rw [List.pairwise_cons] at h
    simp only [insertEntry]
    split
    next hlt =>
      refine List.pairwise_cons.2 ⟨?_, List.pairwise_cons.2 h⟩
      intro e he
      rcases List.mem_cons.1 he with rfl | he
      · exact hlt
      · exact String.lt_trans hlt (h.1 e he)
    next hnlt =>
      split
      next hlt =>
        refine List.pairwise_cons.2 ⟨?_, ih h.2⟩
        intro e he
        rcases mem_insertEntry he with rfl | he
        · exact hlt
        · exact h.1 e he
      next hnlt' =>
        have hkey : key = k := String.le_antisymm (String.not_lt.1 hnlt') (String.not_lt.1 hnlt)
        subst hkey
        exact List.pairwise_cons.2 h

def empty : TextMap α := ⟨[], by simp⟩

instance : Inhabited (TextMap α) := ⟨empty⟩

/-- The map with `value` under `key`, whatever stood there before. -/
def insert (map : TextMap α) (key : String) (value : α) : TextMap α :=
  ⟨insertEntry key value map.entries, insertEntry_sorted map.sorted⟩

/-- The map without `key`. -/
def erase (map : TextMap α) (key : String) : TextMap α :=
  ⟨map.entries.filter (·.1 ≠ key), map.sorted.filter _⟩

def get? (map : TextMap α) (key : String) : Option α :=
  map.entries.lookup key

def contains (map : TextMap α) (key : String) : Bool :=
  (map.get? key).isSome

/-- The keys, in order. -/
def keys (map : TextMap α) : List String :=
  map.entries.map (·.1)

/-- The values, in the order of their keys. -/
def values (map : TextMap α) : List α :=
  map.entries.map (·.2)

def size (map : TextMap α) : Nat := map.entries.length

def isEmpty (map : TextMap α) : Bool := map.entries.isEmpty

/-- Of two entries with one key, the later stays. -/
def ofList (entries : List (String × α)) : TextMap α :=
  entries.foldl (fun map entry => map.insert entry.1 entry.2) empty

/-- Apply a function to each value. -/
def map (f : α → β) (m : TextMap α) : TextMap β :=
  ⟨m.entries.map fun e => (e.1, f e.2), by
    rw [List.pairwise_map]; exact m.sorted⟩

end TextMap

end SolidityBuild
