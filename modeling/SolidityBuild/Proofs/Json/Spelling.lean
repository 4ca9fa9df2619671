import SolidityBuild.Proofs.Json.Document
import SolidityBuild.Proofs.Json.Token

/-!
Texts that spell values, and what is read from them. The grammar allows blanks
between any two parts, so the compact and the indented form of a value are two
of its spellings; the reader takes each of them for the document of the value.
-/

namespace SolidityBuild.Json

open Text (Utf8.Item)
open Text.Decimal

/-! ## The grammar -/

section Grammar

/-- A key with its colon. -/
inductive SpellsKey : List Char → String → Prop
  | mk {bs bs' : List Char} (hbefore : Blank bs) (k : String) (hafter : Blank bs') :
      SpellsKey (bs ++ ((quote k).toList ++ (bs' ++ [':']))) k

mutual

/-- The text spells the value and begins and ends with it. Fractional numbers
are left out, and so are integers that the reader does not hold as such. -/
inductive Spells : List Char → Value → Prop
  | null : Spells ['n', 'u', 'l', 'l'] .null
  | boolTrue : Spells ['t', 'r', 'u', 'e'] (.bool true)
  | boolFalse : Spells ['f', 'a', 'l', 's', 'e'] (.bool false)
  | int {n : Int} (hleast : leastInteger ≤ n) (hlargest : n ≤ largestInteger) :
      Spells (toString n).toList (.int n)
  | str (s : String) : Spells (quote s).toList (.str s)
  | emptyArr {bs : List Char} (h : Blank bs) : Spells ('[' :: (bs ++ [']'])) (.arr [])
  | arr {cs : List Char} {items : List Value} (h : SpellsItems cs items) :
      Spells ('[' :: cs) (.arr items)
  | emptyObj {bs : List Char} (h : Blank bs) : Spells ('\x7b' :: (bs ++ ['\x7d'])) (.obj [])
  | obj {cs : List Char} {fields : List (String × Value)} (h : SpellsFields cs fields) :
      Spells ('\x7b' :: cs) (.obj fields)

/-- The text spells items of an array, its closing bracket included. -/
inductive SpellsItems : List Char → List Value → Prop
  | last {bs cs bs' : List Char} {v : Value} (hbefore : Blank bs) (h : Spells cs v)
      (hafter : Blank bs') : SpellsItems (bs ++ (cs ++ (bs' ++ [']']))) [v]
  | more {bs cs bs' others : List Char} {v : Value} {vs : List Value} (hbefore : Blank bs)
      (h : Spells cs v) (hafter : Blank bs') (hothers : SpellsItems others vs) :
      SpellsItems (bs ++ (cs ++ (bs' ++ ',' :: others))) (v :: vs)

/-- The text spells fields of an object, its closing brace included. -/
inductive SpellsFields : List Char → List (String × Value) → Prop
  | last {key bs cs bs' : List Char} {k : String} {v : Value} (hkey : SpellsKey key k)
      (hbefore : Blank bs) (h : Spells cs v) (hafter : Blank bs') :
      SpellsFields (key ++ (bs ++ (cs ++ (bs' ++ ['\x7d'])))) [(k, v)]
  | more {key bs cs bs' others : List Char} {k : String} {v : Value}
      {fs : List (String × Value)} (hkey : SpellsKey key k) (hbefore : Blank bs)
      (h : Spells cs v) (hafter : Blank bs') (hothers : SpellsFields others fs) :
      SpellsFields (key ++ (bs ++ (cs ++ (bs' ++ ',' :: others)))) ((k, v) :: fs)

end

end Grammar

/-! ## Steps of the reader -/

section Steps

variable {fuel depth : Nat} {bs key : List Char} {cs cs' rest rest' : List Utf8.Item}
  {d : Document} {ds : List Document} {fs : List (Option String × Document)} {k : String}

theorem readValue_skipBlanks : readValue fuel depth (skipBlanks cs) = readValue fuel depth cs := by
  cases fuel with
  | zero => rfl
  | succ fuel => rw [readValue, readValue, skipBlanks_skipBlanks]

theorem readItems_skipBlanks : readItems fuel depth (skipBlanks cs) = readItems fuel depth cs := by
  cases fuel with
  | zero => rfl
  | succ fuel => rw [readItems, readItems, readValue_skipBlanks]

theorem readFields_skipBlanks :
    readFields fuel depth (skipBlanks cs) = readFields fuel depth cs := by
  cases fuel with
  | zero => rfl
  | succ fuel => rw [readFields, readFields, skipBlanks_skipBlanks]

theorem readValue_blank (h : Blank bs) :
    readValue fuel depth (bs.map some ++ cs) = readValue fuel depth cs := by
  rw [← readValue_skipBlanks, skipBlanks_append h, readValue_skipBlanks]

/-- A value that begins with a digit is a number. -/
theorem readValue_digit {c : Char} (hc : c.isDigit = true) :
    readValue (fuel + 1) depth (some c :: cs) = readNumber false (some c :: cs) := by
  rw [readValue, skipBlanks_cons (isJsonBlank_of_isDigit hc)]
  split
  case h_8 => rfl
  all_goals next heq => cases heq; exact absurd hc (by decide)

theorem readValue_int {n : Int} (hleast : leastInteger ≤ n) (hlargest : n ≤ largestInteger)
    (hrest : EndsNumber rest) :
    readValue (fuel + 1) depth ((toString n).toList.map some ++ rest) = (.int n, some rest) := by
  have hbound : leastInteger = -9223372036854775808 := by decide
  have hlarge : largestInteger = 18446744073709551615 := by decide
  rw [toList_toString]
  split
  next hn =>
    obtain ⟨c, others, hcons, hc⟩ := exists_print_eq_cons n.toNat
    have hread := readNumber_print (n := n.toNat) (by omega) hrest false
    rw [hcons, List.map_cons, List.cons_append] at hread ⊢
    rw [readValue_digit hc, hread, integerDocument, if_neg Bool.false_ne_true,
      Int.toNat_of_nonneg hn]
  next hn =>
    rw [List.map_cons, List.cons_append, readValue, skipBlanks_cons (by decide)]
    simp only
    rw [readNumber_print (by omega) hrest, integerDocument, if_pos rfl, if_neg (by omega)]
    congr 2
    omega

theorem readValue_quote (s : String) (cs : List Utf8.Item) :
    readValue (fuel + 1) depth ((quote s).toList.map some ++ cs) = (.str s, some cs) := by
  rw [toList_quote, List.map_cons, List.cons_append, readValue, skipBlanks_cons (by decide)]
  simp only [readText_quote]

theorem readValue_arr (hdepth : depth < nestingLimit)
    (hopen : (skipBlanks cs).head? ≠ some (some ']'))
    (hread : readItems fuel (depth + 1) cs = (ds, some rest)) :
    readValue (fuel + 1) depth (some '[' :: cs) = (.arr ds, some rest) := by
  rw [readValue, skipBlanks_cons (by decide)]
  simp only
  split
  next heq => exact absurd (by rw [heq]; rfl) hopen
  next => rw [readItems_skipBlanks, hread, nested, if_pos hdepth]

theorem readValue_obj (hdepth : depth < nestingLimit)
    (hopen : (skipBlanks cs).head? ≠ some (some '\x7d'))
    (hread : readFields fuel (depth + 1) cs = (fs, some rest)) :
    readValue (fuel + 1) depth (some '\x7b' :: cs) = (.obj fs, some rest) := by
  rw [readValue, skipBlanks_cons (by decide)]
  simp only
  split
  next heq => exact absurd (by rw [heq]; rfl) hopen
  next => rw [readFields_skipBlanks, hread, nested, if_pos hdepth]

theorem readValue_emptyArr (hdepth : depth < nestingLimit)
    (hclose : skipBlanks cs = some ']' :: rest) :
    readValue (fuel + 1) depth (some '[' :: cs) = (.arr [], some rest) := by
  rw [readValue, skipBlanks_cons (by decide)]
  simp only [hclose]
  rw [nested, if_pos hdepth]

theorem readValue_emptyObj (hdepth : depth < nestingLimit)
    (hclose : skipBlanks cs = some '\x7d' :: rest) :
    readValue (fuel + 1) depth (some '\x7b' :: cs) = (.obj [], some rest) := by
  rw [readValue, skipBlanks_cons (by decide)]
  simp only [hclose]
  rw [nested, if_pos hdepth]

theorem readItems_last (hvalue : readValue fuel depth cs = (d, some rest))
    (hrest : skipBlanks rest = some ']' :: rest') :
    readItems (fuel + 1) depth cs = ([d], some rest') := by
  rw [readItems, hvalue]
  simp only [hrest]

theorem readItems_more (hvalue : readValue fuel depth cs = (d, some rest))
    (hrest : skipBlanks rest = some ',' :: cs')
    (hothers : readItems fuel depth cs' = (ds, some rest')) :
    readItems (fuel + 1) depth cs = (d :: ds, some rest') := by
  rw [readItems, hvalue]
  simp only [hrest, hothers]

theorem SpellsKey.skipBlanks (h : SpellsKey key k) (cs : List Utf8.Item) :
    ∃ behind, Json.skipBlanks (key.map some ++ cs) =
        some '"' :: ((k.toList.flatMap escape ++ ['"']).map some ++ behind) ∧
      Json.skipBlanks behind = some ':' :: cs := by
  cases h with
  | @mk bs bs' hbefore k hafter =>
      refine ⟨bs'.map some ++ some ':' :: cs, ?_, ?_⟩
      · simp only [List.map_append, List.append_assoc, skipBlanks_append hbefore, toList_quote,
          List.map_cons, List.cons_append, List.map_nil, List.nil_append]
        exact skipBlanks_cons (by decide)
      · rw [skipBlanks_append hafter, skipBlanks_cons (by decide)]

theorem readFields_last (hkey : SpellsKey key k)
    (hvalue : readValue fuel depth cs = (d, some rest))
    (hrest : skipBlanks rest = some '\x7d' :: rest') :
    readFields (fuel + 1) depth (key.map some ++ cs) = ([(some k, d)], some rest') := by
  obtain ⟨behind, hfirst, hcolon⟩ := hkey.skipBlanks cs
  rw [readFields, hfirst]
  simp only [readText_quote, hcolon, hvalue, hrest]

theorem readFields_more (hkey : SpellsKey key k)
    (hvalue : readValue fuel depth cs = (d, some rest))
    (hrest : skipBlanks rest = some ',' :: cs')
    (hothers : readFields fuel depth cs' = (fs, some rest')) :
    readFields (fuel + 1) depth (key.map some ++ cs) = ((some k, d) :: fs, some rest') := by
  obtain ⟨behind, hfirst, hcolon⟩ := hkey.skipBlanks cs
  rw [readFields, hfirst]
  simp only [readText_quote, hcolon, hvalue, hrest, hothers]

end Steps

/-! ## Every spelling is read -/

section Completeness

variable {fuel depth : Nat} {cs bs : List Char} {rest : List Utf8.Item} {v : Value}
  {items : List Value} {fields : List (String × Value)}

theorem endsNumber_cons {c : Char} (hdigit : c.isDigit = false) (hc : c ∉ ['.', 'e', 'E']) :
    EndsNumber (some c :: rest) := by
  intro d hd
  obtain rfl : c = d := by simpa using hd
  simp only [List.mem_cons, List.not_mem_nil, or_false, not_or] at hc
  exact ⟨hdigit, hc⟩

theorem endsNumber_blank (h : Blank bs) (hrest : EndsNumber rest) :
    EndsNumber (bs.map some ++ rest) := by
  cases bs with
  | nil => exact hrest
  | cons b bs =>
      have hb := h b List.mem_cons_self
      simp only [isJsonBlank, Bool.or_eq_true, decide_eq_true_eq] at hb
      rcases hb with ((rfl | rfl) | rfl) | rfl <;>
        exact endsNumber_cons (by decide) (by decide)

theorem skipBlanks_closed (h : Blank bs) {c : Char} (hc : isJsonBlank c = false)
    (behind : List Char) (rest : List Utf8.Item) :
    skipBlanks ((bs ++ c :: behind).map some ++ rest) =
      some c :: (behind.map some ++ rest) := by
  rw [List.map_append, List.append_assoc, skipBlanks_append h, List.map_cons, List.cons_append,
    skipBlanks_cons hc]

theorem Spells.first (h : Spells cs v) :
    ∃ c others, cs = c :: others ∧ isJsonBlank c = false ∧ c ≠ ']' := by
  cases h with
  | @int n =>
      rw [toList_toString]
      split
      next =>
        obtain ⟨c, others, hcons, hc⟩ := exists_print_eq_cons n.toNat
        refine ⟨c, others, hcons, isJsonBlank_of_isDigit hc, ?_⟩
        rintro rfl
        exact absurd hc (by decide)
      next => exact ⟨'-', _, rfl, by decide, by decide⟩
  | str s => exact ⟨'"', _, toList_quote s, by decide, by decide⟩
  | _ => exact ⟨_, _, rfl, by decide, by decide⟩

theorem SpellsItems.first (h : SpellsItems cs items) (rest : List Utf8.Item) :
    (skipBlanks (cs.map some ++ rest)).head? ≠ some (some ']') := by
  have hfirst : ∀ {bs cs behind : List Char} {v : Value}, Blank bs → Spells cs v →
      (skipBlanks ((bs ++ (cs ++ behind)).map some ++ rest)).head? ≠ some (some ']') := by
    intro bs cs behind v hbefore h
    obtain ⟨c, others, rfl, hblank, hc⟩ := h.first
    rw [List.map_append, List.append_assoc, skipBlanks_append hbefore, List.cons_append,
      List.map_cons, List.cons_append, skipBlanks_cons hblank, List.head?_cons]
    exact fun heq => hc (Option.some.inj (Option.some.inj heq))
  cases h with
  | last hbefore h => exact hfirst hbefore h
  | more hbefore h => exact hfirst hbefore h

theorem SpellsFields.first (h : SpellsFields cs fields) (rest : List Utf8.Item) :
    (skipBlanks (cs.map some ++ rest)).head? ≠ some (some '\x7d') := by
  have hfirst : ∀ {key behind : List Char} {k : String}, SpellsKey key k →
      (skipBlanks ((key ++ behind).map some ++ rest)).head? ≠ some (some '\x7d') := by
    intro key behind k hkey
    obtain ⟨_, hquote, -⟩ := hkey.skipBlanks (behind.map some ++ rest)
    rw [List.map_append, List.append_assoc, hquote]
    simp
  cases h with
  | last hkey => exact hfirst hkey
  | more hkey => exact hfirst hkey

/-- What is spelled by a text that `fuel` steps suffice for is read from it. The
steps are those of the reader, which spends one on a list of items or fields and
one on each value in it. -/
structure ReadsWithin (fuel : Nat) : Prop where
  value : ∀ {cs v} depth rest, Spells cs v → 2 * cs.length ≤ fuel →
    depth + v.toDocument.nesting ≤ nestingLimit → EndsNumber rest →
      readValue fuel depth (cs.map some ++ rest) = (v.toDocument, some rest)
  items : ∀ {cs items} depth rest, SpellsItems cs items → 2 * cs.length ≤ fuel →
    depth + Document.nestingItems (Value.itemDocuments items) ≤ nestingLimit →
      readItems fuel depth (cs.map some ++ rest) = (Value.itemDocuments items, some rest)
  fields : ∀ {cs fields} depth rest, SpellsFields cs fields → 2 * cs.length ≤ fuel →
    depth + Document.nestingFields (Value.fieldDocuments fields) ≤ nestingLimit →
      readFields fuel depth (cs.map some ++ rest) = (Value.fieldDocuments fields, some rest)

namespace ReadsWithin

theorem zero : ReadsWithin 0 where
  value depth rest h hfuel := by
    obtain ⟨c, others, rfl, -⟩ := h.first
    simp at hfuel
  items depth rest h hfuel := by cases h <;> simp at hfuel
  fields depth rest h hfuel := by cases h <;> simp at hfuel

theorem value_succ (ih : ReadsWithin fuel) (depth : Nat) (rest : List Utf8.Item)
    (h : Spells cs v) (hfuel : 2 * cs.length ≤ fuel + 1)
    (hdepth : depth + v.toDocument.nesting ≤ nestingLimit) (hrest : EndsNumber rest) :
    readValue (fuel + 1) depth (cs.map some ++ rest) = (v.toDocument, some rest) := by
  cases h with
  | null => rfl
  | boolTrue => rfl
  | boolFalse => rfl
  | int hleast hlargest => exact readValue_int hleast hlargest hrest
  | str s => exact readValue_quote s rest
  | emptyArr hblank =>
      rw [Value.toDocument, Document.nesting] at hdepth
      exact readValue_emptyArr (by omega) (skipBlanks_closed hblank (by decide) [] rest)
  | arr h =>
      rw [Value.toDocument, Document.nesting] at hdepth
      rw [List.length_cons] at hfuel
      exact readValue_arr (by omega) (h.first rest)
        (ih.items (depth + 1) rest h (by omega) (by omega))
  | emptyObj hblank =>
      rw [Value.toDocument, Document.nesting] at hdepth
      exact readValue_emptyObj (by omega) (skipBlanks_closed hblank (by decide) [] rest)
  | obj h =>
      rw [Value.toDocument, Document.nesting] at hdepth
      rw [List.length_cons] at hfuel
      exact readValue_obj (by omega) (h.first rest)
        (ih.fields (depth + 1) rest h (by omega) (by omega))

/-- A value among others, with blanks around it, is read up to what follows. -/
theorem padded (ih : ReadsWithin fuel) (depth : Nat) {bs cs bs' behind : List Char} {c : Char}
    (hbefore : Blank bs) (h : Spells cs v) (hafter : Blank bs') (hdigit : c.isDigit = false)
    (hc : c ∉ ['.', 'e', 'E']) (rest : List Utf8.Item) (hfuel : 2 * cs.length ≤ fuel)
    (hdepth : depth + v.toDocument.nesting ≤ nestingLimit) :
    readValue fuel depth ((bs ++ (cs ++ (bs' ++ c :: behind))).map some ++ rest) =
      (v.toDocument, some ((bs' ++ c :: behind).map some ++ rest)) := by
  have hends : EndsNumber ((bs' ++ c :: behind).map some ++ rest) := by
    rw [List.map_append, List.append_assoc]
    exact endsNumber_blank hafter (endsNumber_cons hdigit hc)
  rw [List.map_append, List.append_assoc, readValue_blank hbefore, List.map_append,
    List.append_assoc]
  exact ih.value depth _ h hfuel hdepth hends

theorem items_succ (ih : ReadsWithin fuel) (depth : Nat) (rest : List Utf8.Item)
    (h : SpellsItems cs items) (hfuel : 2 * cs.length ≤ fuel + 1)
    (hdepth : depth + Document.nestingItems (Value.itemDocuments items) ≤ nestingLimit) :
    readItems (fuel + 1) depth (cs.map some ++ rest) =
      (Value.itemDocuments items, some rest) := by
  cases h with
  | last hbefore h hafter =>
      simp only [List.length_append, List.length_cons, List.length_nil] at hfuel
      simp only [Value.itemDocuments, Document.nestingItems] at hdepth
      exact readItems_last
        (ih.padded depth hbefore h hafter (by decide) (by decide) rest (by omega) (by omega))
        (skipBlanks_closed hafter (by decide) [] rest)
  | more hbefore h hafter hothers =>
      simp only [List.length_append, List.length_cons] at hfuel
      simp only [Value.itemDocuments, Document.nestingItems] at hdepth
      exact readItems_more
        (ih.padded depth hbefore h hafter (by decide) (by decide) rest (by omega) (by omega))
        (skipBlanks_closed hafter (by decide) _ rest)
        (ih.items depth rest hothers (by omega) (by omega))

theorem fields_succ (ih : ReadsWithin fuel) (depth : Nat) (rest : List Utf8.Item)
    (h : SpellsFields cs fields) (hfuel : 2 * cs.length ≤ fuel + 1)
    (hdepth : depth + Document.nestingFields (Value.fieldDocuments fields) ≤ nestingLimit) :
    readFields (fuel + 1) depth (cs.map some ++ rest) =
      (Value.fieldDocuments fields, some rest) := by
  cases h with
  | last hkey hbefore h hafter =>
      simp only [List.length_append, List.length_cons, List.length_nil] at hfuel
      simp only [Value.fieldDocuments, Document.nestingFields] at hdepth
      rw [List.map_append, List.append_assoc]
      exact readFields_last hkey
        (ih.padded depth hbefore h hafter (by decide) (by decide) rest (by omega) (by omega))
        (skipBlanks_closed hafter (by decide) [] rest)
  | more hkey hbefore h hafter hothers =>
      simp only [List.length_append, List.length_cons] at hfuel
      simp only [Value.fieldDocuments, Document.nestingFields] at hdepth
      rw [List.map_append, List.append_assoc]
      exact readFields_more hkey
        (ih.padded depth hbefore h hafter (by decide) (by decide) rest (by omega) (by omega))
        (skipBlanks_closed hafter (by decide) _ rest)
        (ih.fields depth rest hothers (by omega) (by omega))

end ReadsWithin

theorem readsWithin (fuel : Nat) : ReadsWithin fuel := by
  induction fuel with
  | zero => exact .zero
  | succ fuel ih =>
      exact ⟨fun depth rest => ih.value_succ depth rest, fun depth rest => ih.items_succ depth rest,
        fun depth rest => ih.fields_succ depth rest⟩

/-- A text that spells a value, with blanks around it, is read as the value and
nothing else, unless the value is nested too deeply. -/
theorem read_of_spells {text : String} {cs' : List Char} (hbefore : Blank bs) (h : Spells cs v)
    (hafter : Blank cs') (htext : text.toList = bs ++ (cs ++ cs'))
    (hdepth : v.toDocument.nesting ≤ nestingLimit) : read text = ⟨v.toDocument, true⟩ := by
  have hends : EndsNumber (cs'.map some) := by
    rw [← List.append_nil (cs'.map some)]
    exact endsNumber_blank hafter fun c hc => by cases hc
  have hblank : skipBlanks (cs'.map some) = [] := by
    rw [← List.append_nil (cs'.map some), skipBlanks_append hafter]
    rfl
  have hvalue : ∀ fuel, 2 * cs.length ≤ fuel →
      readValue fuel 0 (text.toList.map some) = (v.toDocument, some (cs'.map some)) := by
    intro fuel hfuel
    rw [htext, List.map_append, readValue_blank hbefore, List.map_append]
    exact (readsWithin fuel).value 0 _ h hfuel (by omega) hends
  have hfuel : 2 * cs.length ≤ 2 * (text.toList.map some).length + 2 := by
    rw [List.length_map, htext, List.length_append, List.length_append]
    omega
  rw [read, readAll, hvalue _ hfuel]
  simp only [hblank]
  rfl

end Completeness

end SolidityBuild.Json
