import SolidityBuild.Proofs.Abi.Codec
import SolidityBuild.Proofs.Json.Steady

/-!
Interfaces are read of values as they are of documents. The parameters of a tuple may
be read with any fuel that is enough for the document, so it does not matter that the
one which spells its value is less high. An entry is told by its tag, which stands
first among the fields of neither.
-/

namespace SolidityBuild.Abi

open Json

variable {d d' : Document}

/-! ## Parameters -/

namespace Draft

variable {fuel fuel' : Nat} {draft : Draft}

theorem steady_readWithin (fuel : Nat) : (readWithin fuel).Steady := by
  induction fuel with
  | zero =>
      intro d d' draft _ h
      cases h
  | succ fuel ih =>
      refine Record.steady_decode (by decide) nofun ?_
      exact ((((Record.Steady.map (.optionalWith (by decide) .text)).seq
        (.required (by decide) .text)).seq (.optional (by decide) (.list ih))).seq
        (.optional (by decide) .text)).seq (.optional (by decide) .bool)

/-- A parameter that is read is read with all the fuel that it takes. -/
theorem readWithin_of_nesting_le (h : readWithin fuel d = .ok draft) (hfuel : d.nesting ≤ fuel') :
    readWithin fuel' d = .ok draft := by
  induction fuel generalizing fuel' d draft with
  | zero => cases h
  | succ fuel ih =>
      rw [readWithin] at h
      obtain ⟨r, hinside, hr, hagain⟩ := Record.exists_inside h
      obtain ⟨fuel', rfl⟩ := Nat.exists_eq_succ_of_ne_zero (Nat.pos_iff_ne_zero.1
        (Nat.lt_of_lt_of_le hinside.pos hfuel))
      rw [readWithin]
      refine hagain _ _ ?_
      simp only [Fields.seq_eq_good, Fields.map_eq_good] at hr ⊢
      obtain ⟨_, indexed, ⟨_, internalType, ⟨_, components, hfront, hcomponents, rfl⟩,
        hinternal, rfl⟩, hindexed, rfl⟩ := hr
      refine ⟨_, indexed, ⟨_, internalType, ⟨_, components, hfront, ?_, rfl⟩, hinternal, rfl⟩,
        hindexed, rfl⟩
      refine Record.optional_imp hcomponents fun p part drafts hlookup hpart => ?_
      obtain ⟨items, rfl, hitems⟩ := Json.Decoder.list_eq_ok_iff.1 hpart
      have hless := hinside.known hlookup
      refine Json.Decoder.list_eq_ok_iff.2 ⟨items, rfl, ?_⟩
      have hless : ∀ item ∈ items, item.nesting ≤ fuel' := fun item hitem => by
        have hitem := Document.nesting_lt_of_mem_items hitem
        omega
      exact ((List.forall₂_and_left _ _).2 ⟨hless, hitems⟩).imp fun item draft h => ih h.2 h.1

theorem steady_read : read.Steady := by
  intro d d' draft hd h
  exact readWithin_of_nesting_le (steady_readWithin _ d d' draft hd h)
    (Document.nesting_le_height d')

end Draft

theorem Field.steady_read : Field.read.Steady := by
  intro d d' f hd h
  obtain ⟨draft, hdraft, hfield⟩ := Field.read_eq_ok_iff.1 h
  exact Field.read_eq_ok_iff.2 ⟨draft, Draft.steady_read d d' draft hd hdraft, hfield⟩

theorem isVoid_of_respelled (hd : Respelled d d') (h : d.isVoid = true) : d'.isVoid = true := by
  obtain ⟨v, hv, rfl⟩ := hd
  cases d with
  | null =>
      cases hv
      rfl
  | obj fields =>
      cases fields with
      | nil =>
          cases hv
          rfl
      | cons f fields => cases h
  | _ => cases h

theorem Mutability.steady_read {ε : Type} : (Mutability.read : Json.Decoder ε Mutability).Steady :=
  .oneOf _ fun _ _ => isVoid_of_respelled

/-! ## Entries -/

section Records

variable {names : List String}

theorem steady_inputsOf (h : "inputs" ∈ names) : Record.Steady names inputsOf :=
  .optionalWith h (.list Field.steady_read)

theorem steady_mutabilityOf (h : "stateMutability" ∈ names) : Record.Steady names mutabilityOf :=
  .optional h Mutability.steady_read

theorem Function.steady_read : Function.read.Steady := by
  refine Record.steady_decode (by decide) nofun ?_
  exact (((((Record.Steady.map (.required (by decide) .text)).seq
    (steady_inputsOf (by decide))).seq (.optionalWith (by decide) (.list Field.steady_read))).seq
    (steady_mutabilityOf (by decide))).seq (.optional (by decide) .bool)).seq
    (.optional (by decide) .bool)

theorem Constructor.steady_read : Constructor.read.Steady := by
  refine Record.steady_decode (by decide) nofun ?_
  exact ((Record.Steady.map (steady_inputsOf (by decide))).seq
    (steady_mutabilityOf (by decide))).seq (.optional (by decide) .bool)

theorem Event.steady_read : Event.read.Steady := by
  refine Record.steady_decode (by decide) nofun ?_
  exact ((Record.Steady.map (.required (by decide) .text)).seq
    (steady_inputsOf (by decide))).seq (.optionalWith (by decide) .bool)

theorem ErrorCase.steady_read : ErrorCase.read.Steady := by
  refine Record.steady_decode (by decide) nofun ?_
  exact (Record.Steady.map (.required (by decide) .text)).seq (steady_inputsOf (by decide))

theorem Special.steady_read : Special.read.Steady := by
  refine Record.steady_decode (by decide) nofun ?_
  exact Record.Steady.map (steady_mutabilityOf (by decide))

end Records

namespace Entry

theorem steady_map {α β : Type} {read : Decoder α} (hread : read.Steady) (f : α → β) :
    Json.Decoder.Steady fun d => (read d).map f := by
  intro d d' b hd h
  obtain ⟨a, ha, rfl⟩ := exists_of_map_eq_ok h
  show (read d').map f = _
  rw [hread d d' a hd ha]
  rfl

theorem steady_readAs (tag : String) : (readAs tag).Steady := by
  have hnone : Json.Decoder.Steady fun _ =>
      (.error .misfit : Except (Fault InvalidType) Entry) := nofun
  exact .ite (steady_map Constructor.steady_read _) <|
    .ite (steady_map Function.steady_read _) <| .ite (steady_map Event.steady_read _) <|
    .ite (steady_map ErrorCase.steady_read _) <| .ite (steady_map Special.steady_read _) <|
    .ite (steady_map Special.steady_read _) hnone

theorem steady_read : read.Steady := by
  intro d d' e hd h
  have hreadable : d'.isReadable = true := by
    obtain ⟨v, -, rfl⟩ := hd
    exact Value.isReadable_toDocument v
  unfold read at h
  split at h
  next =>
    split at h
    next fields =>
      obtain ⟨map, rfl, -⟩ := hd.exists_map
      split at h
      next key tag htag =>
        have htagged := hd.filter fun key => decide (key = some tagName)
        rw [htag] at htagged
        obtain ⟨k, _, rfl, htagged, v, hv, rfl⟩ := htagged.exists_field
        cases hv
        rw [Value.toDocument] at hreadable ⊢
        rw [read, if_pos hreadable, htagged]
        exact steady_readAs tag _ _ e (hd.filter fun key => decide (key ≠ some tagName)) h
      next => cases h
    next tag items _ =>
      obtain ⟨vs, hvs, rfl⟩ := hd.exists_items
      cases hvs with
      | @cons _ _ _ vs hv hvs =>
          cases hv
          have hrest : Respelled (.arr items) (.arr (vs.map Value.toDocument)) :=
            ⟨.arr vs, by rw [Document.value?, Document.valueItems?_eq_some_iff.2 hvs]; rfl,
              Value.toDocument_arr vs⟩
          rw [List.map_cons, Value.toDocument] at hreadable ⊢
          rw [read, if_pos hreadable]
          exact steady_readAs tag _ _ e hrest h
    next => cases h
  next => cases h

end Entry

theorem steady_read : read.Steady := .list Entry.steady_read

end SolidityBuild.Abi
