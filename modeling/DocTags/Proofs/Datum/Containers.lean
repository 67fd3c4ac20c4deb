import DocTags.Proofs.Datum.Entries
import DocTags.Proofs.Text.Table

/-!
# Values from tables of containers

The values that a table of containers describes are well formed: the keys of every mapping in them
differ, and only a value that shows a container of a table has such values for parts.
-/

namespace DocTags.Datum

variable {d p : Datum} {f : Datum → Datum} {settled waiting containers : List (Nat × Datum)}
  {c : Nat × Datum}

/-- The keys differ if the value is a mapping. -/
def HasDifferentKeys (d : Datum) : Prop :=
  ∀ es, d = map es → KeysDiffer es

/-- The value, down to its last part, stands for nothing in a table, and the keys of its mappings
differ. -/
inductive IsSettled : Datum → Prop where
  | intro {d : Datum} (isKnot : d.isKnot = false) (isAgain : d.isAgain = false)
    (keys : d.HasDifferentKeys) (parts : ∀ p ∈ d.parts, IsSettled p) : IsSettled d

/-- What may stand in a container: a settled value, or what stands for a container. -/
def IsPart (d : Datum) : Prop :=
  d.isAgain = true ∨ d.IsSettled

/-- A container of a table. -/
structure IsContainer (d : Datum) : Prop where
  isKnot : d.isKnot = false
  isAgain : d.isAgain = false
  keys : d.HasDifferentKeys
  parts : ∀ p ∈ d.parts, p.IsPart

/-- A value without a table, or a container of a table. -/
def IsWellFormed (d : Datum) : Prop :=
  d.IsSettled ∨ ∃ containers number, d = knot containers number ∧ ∀ c ∈ containers, c.2.IsContainer

theorem HasDifferentKeys.of_ne (h : ∀ es, d ≠ map es) : d.HasDifferentKeys :=
  fun es heq => absurd heq (h es)

/-- The value is neither a container nor one of the things that a provider hands out. -/
def IsScalar : Datum → Prop
  | null | bool _ | int _ | real _ | text _ | moment _ | bytes .. => True
  | _ => False

theorem IsScalar.isSettled (h : d.IsScalar) : d.IsSettled := by
  cases d with
  | null | bool | int | real | text | moment | bytes =>
      exact .intro rfl rfl (.of_ne fun _ => Datum.noConfusion) fun p hp =>
        absurd hp List.not_mem_nil
  | _ => exact h.elim

theorem hasDifferentKeys_map {es : List (Datum × Datum)} :
    (map es).HasDifferentKeys ↔ KeysDiffer es :=
  ⟨fun h => h es rfl, fun h _ heq => map.inj heq ▸ h⟩

@[simp] theorem parts_mapParts (f : Datum → Datum) (d : Datum) :
    (mapParts f d).parts = d.parts.map f := by
  cases d with
  | map es => simp [mapParts, parts]
  | _ => rfl

theorem isKnot_mapParts (f : Datum → Datum) (d : Datum) : (mapParts f d).isKnot = d.isKnot := by
  cases d <;> rfl

theorem isAgain_mapParts (f : Datum → Datum) (d : Datum) : (mapParts f d).isAgain = d.isAgain := by
  cases d <;> rfl

theorem HasDifferentKeys.mapParts (h : d.HasDifferentKeys) (f : Datum → Datum) :
    (mapParts f d).HasDifferentKeys := by
  cases d with
  | map es =>
      rw [Datum.mapParts, hasDifferentKeys_map, KeysDiffer, List.pairwise_map]
      exact hasDifferentKeys_map.mp h
  | list xs | tuple xs => exact .of_ne fun _ => Datum.noConfusion
  | _ => exact h

theorem IsContainer.mapParts (h : d.IsContainer) (hf : ∀ p, p.IsPart → (f p).IsPart) :
    (mapParts f d).IsContainer where
  isKnot := (isKnot_mapParts f d).trans h.isKnot
  isAgain := (isAgain_mapParts f d).trans h.isAgain
  keys := h.keys.mapParts f
  parts := by
    intro p hp
    rw [parts_mapParts] at hp
    obtain ⟨q, hq, rfl⟩ := List.mem_map.mp hp
    exact hf q (h.parts q hq)

/-- A container none of whose parts stands for a container is settled. -/
theorem IsContainer.isSettled (h : d.IsContainer) (hnone : d.parts.any Datum.isAgain = false) :
    d.IsSettled := by
  refine .intro h.isKnot h.isAgain h.keys fun p hp => ?_
  have hagain := List.any_eq_false.mp hnone p hp
  exact (h.parts p hp).resolve_left hagain

theorem IsContainer.of_parts (hknot : d.isKnot = false) (hagain : d.isAgain = false)
    (hmap : ∀ es, d ≠ map es) (hparts : ∀ p ∈ d.parts, p.IsPart) : d.IsContainer :=
  ⟨hknot, hagain, .of_ne hmap, hparts⟩

theorem isContainer_list {ds : List Datum} (h : ∀ d ∈ ds, d.IsPart) : (list ds).IsContainer :=
  .of_parts rfl rfl (fun _ => Datum.noConfusion) h

theorem isContainer_tuple {ds : List Datum} (h : ∀ d ∈ ds, d.IsPart) : (tuple ds).IsContainer :=
  .of_parts rfl rfl (fun _ => Datum.noConfusion) h

theorem isContainer_set (ds : List Datum) : (set ds).IsContainer :=
  .of_parts rfl rfl (fun _ => Datum.noConfusion) fun _ hd => absurd hd List.not_mem_nil

theorem isPart_settledPart (hsettled : ∀ c ∈ settled, c.2.IsSettled) (hp : p.IsPart) :
    (settledPart settled p).IsPart := by
  cases p with
  | again number =>
      rw [settledPart]
      cases hlookup : settled.lookup number with
      | none => exact hp
      | some d => exact .inr (hsettled _ (mem_of_lookup hlookup))
  | _ => exact hp

/-- Settled containers, and containers that are not settled yet. -/
structure HoldsContainers (tables : List (Nat × Datum) × List (Nat × Datum)) : Prop where
  settled : ∀ c ∈ tables.1, c.2.IsSettled
  waiting : ∀ c ∈ tables.2, c.2.IsContainer

theorem settleRound_cons (settled : List (Nat × Datum)) (c : Nat × Datum)
    (waiting : List (Nat × Datum)) :
    settleRound settled (c :: waiting)
      = (let tables := settleRound settled waiting
        let d := mapParts (settledPart tables.1) c.2
        if d.parts.any isAgain then (tables.1, (c.1, d) :: tables.2)
        else ((c.1, d) :: tables.1, tables.2)) := rfl

theorem HoldsContainers.settleRound (h : HoldsContainers (settled, waiting)) :
    HoldsContainers (settleRound settled waiting) := by
  obtain ⟨hsettled, hwaiting⟩ := h
  induction waiting with
  | nil => exact ⟨hsettled, hwaiting⟩
  | cons c waiting ih =>
      -- A round goes from the end, and what it settles there is settled for those in front.
      rw [List.forall_mem_cons] at hwaiting
      obtain ⟨hsettled', hwaiting'⟩ := ih hsettled hwaiting.2
      have hc : (mapParts (settledPart (Datum.settleRound settled waiting).1) c.2).IsContainer :=
        hwaiting.1.mapParts fun p => isPart_settledPart hsettled'
      rw [settleRound_cons]
      dsimp only
      split
      · exact ⟨hsettled', List.forall_mem_cons.mpr ⟨hc, hwaiting'⟩⟩
      · next hnone =>
          have hc' := hc.isSettled (Bool.not_eq_true _ ▸ hnone)
          exact ⟨List.forall_mem_cons.mpr ⟨hc', hsettled'⟩, hwaiting'⟩

theorem HoldsContainers.settle (rounds : Nat) (h : HoldsContainers (settled, waiting)) :
    HoldsContainers (settle rounds settled waiting) := by
  induction rounds generalizing settled waiting with
  | zero => exact h
  | succ rounds ih =>
      rw [Datum.settle]
      dsimp only
      split
      · exact h.settleRound
      · exact ih h.settleRound

theorem isWellFormed_partOf (hcontainers : ∀ c ∈ containers, c.2.IsContainer) (hp : p.IsPart) :
    (partOf containers p).IsWellFormed := by
  cases p with
  | again number => exact .inr ⟨containers, number, rfl, hcontainers⟩
  | _ => exact .inl (hp.resolve_left Bool.false_ne_true)

/-- What stands for a value in a table of containers becomes a well-formed value. -/
theorem isWellFormed_ofContainers (hcontainers : ∀ c ∈ containers, c.2.IsContainer)
    (hp : p.IsPart) : (ofContainers containers p).IsWellFormed := by
  have hstart : HoldsContainers ([], containers) :=
    ⟨fun c hc => absurd hc List.not_mem_nil, hcontainers⟩
  obtain ⟨hsettled, hwaiting⟩ := hstart.settle containers.length
  exact isWellFormed_partOf hwaiting (isPart_settledPart hsettled hp)

theorem opened_of_not_isKnot (h : d.isKnot = false) : d.opened = d := by
  cases d with
  | knot => exact Bool.noConfusion h
  | _ => rfl

/-- A container of a table, or nothing at all. -/
theorem isContainer_lookup_getD (hcontainers : ∀ c ∈ containers, c.2.IsContainer) (number : Nat) :
    ((containers.lookup number).getD null).IsContainer := by
  cases hlookup : containers.lookup number with
  | none =>
      exact .of_parts rfl rfl (fun _ => Datum.noConfusion) fun p hp => absurd hp List.not_mem_nil
  | some d => exact hcontainers _ (mem_of_lookup hlookup)

theorem isWellFormed_map_nil : (map []).IsWellFormed :=
  .inl (.intro rfl rfl (hasDifferentKeys_map.mpr .nil) fun _ hp => absurd hp List.not_mem_nil)

namespace IsWellFormed

/-- The keys of a well-formed mapping differ. -/
theorem keys_opened (h : d.IsWellFormed) : d.opened.HasDifferentKeys := by
  obtain h | ⟨containers, number, rfl, hcontainers⟩ := h
  · obtain ⟨hknot, -, hkeys, -⟩ := h
    rwa [opened_of_not_isKnot hknot]
  · exact (isContainer_lookup_getD hcontainers number).keys.mapParts _

/-- The parts of a well-formed value are well formed. -/
theorem parts_opened (h : d.IsWellFormed) (hp : p ∈ d.opened.parts) : p.IsWellFormed := by
  obtain h | ⟨containers, number, rfl, hcontainers⟩ := h
  · obtain ⟨hknot, -, -, hparts⟩ := h
    rw [opened_of_not_isKnot hknot] at hp
    exact .inl (hparts p hp)
  · rw [opened, parts_mapParts] at hp
    obtain ⟨q, hq, rfl⟩ := List.mem_map.mp hp
    exact isWellFormed_partOf hcontainers
      ((isContainer_lookup_getD hcontainers number).parts q hq)

/-- Only a value that shows a container has such a value for a part. -/
theorem isKnot_part (h : d.IsWellFormed) (hd : d.isKnot = false) (hp : p ∈ d.opened.parts) :
    p.isKnot = false := by
  obtain ⟨hknot, -, -, hparts⟩ | ⟨containers, number, rfl, -⟩ := h
  · rw [opened_of_not_isKnot hknot] at hp
    obtain ⟨hpart, -, -, -⟩ := hparts p hp
    exact hpart
  · exact Bool.noConfusion hd

end IsWellFormed

end DocTags.Datum
