import DocTags.Proofs.Datum.Containers
import DocTags.Proofs.Fallible
import DocTags.Yaml.Reader

/-!
# What YAML documents give

The value of a document is well formed: whatever the document holds, and also if it holds itself,
the keys of its mappings differ.
-/

namespace DocTags.Yaml

open Datum

/-- What a scalar stands for has no parts. -/
theorem isScalar_value (tag : Tag) (s : List Char) :
    GivesWithin Datum.IsScalar (Scalar.value tag s) := by
  cases tag with
  | null | text => exact .ok trivial
  | truth => exact ((GivesWithin.any _).map fun _ _ => trivial).mapError _
  | int => exact ((GivesWithin.any _).map fun _ _ => trivial).mapError _
  | real => exact ((GivesWithin.any _).map fun _ _ => trivial).mapError _
  | time => exact ((GivesWithin.any _).map fun _ _ => trivial).mapError _
  | bytes => exact (GivesWithin.any _).map fun _ _ => trivial
  | _ => exact .error _ _

namespace Construction

variable {c : Construction} {d : Datum} {key k l : Key} {es : List (Key × Datum)}

/-- Everything that is known by now can be a part, and the containers that are known are filled with
parts. -/
structure Holds (c : Construction) : Prop where
  values : ∀ (number : Nat) (d : Datum), c.values[number]?.join = some d → d.IsPart
  containers : ∀ e ∈ c.containers, e.2.IsContainer

theorem holds_start (nodes : Array Node) : (start nodes).Holds where
  values := by
    intro number d hd
    rw [start, Array.getElem?_replicate] at hd
    split at hd <;> cases hd
  containers := fun e he => absurd he List.not_mem_nil

theorem Holds.know (h : c.Holds) (number : Nat) (hd : d.IsPart) : (c.know number d).Holds where
  values := by
    intro other e he
    rw [Construction.know, Array.getElem?_setIfInBounds] at he
    split at he
    · split at he
      · obtain rfl : d = e := Option.some.inj he
        exact hd
      · cases he
    · exact h.values other e he
  containers := h.containers

theorem Holds.contain (h : c.Holds) (number : Nat) (hd : d.IsContainer) :
    (c.contain number d).Holds where
  values := h.values
  containers := List.forall_mem_cons.mpr ⟨hd, h.containers⟩

theorem isScalar_scalarValue (c : Construction) (tag : Tag) (number : Nat) :
    GivesWithin Datum.IsScalar (c.scalarValue tag number) := by
  rw [scalarValue]
  refine (GivesWithin.any _).bind fun text _ => ?_
  split
  · exact .error _ _
  · exact isScalar_value _ text

theorem Holds.visit (h : c.Holds) (number : Nat) :
    GivesWithin (fun r => r.1.IsPart ∧ r.2.Holds) (c.visit number) := by
  rw [Construction.visit]
  split
  · next d hd => exact .ok ⟨h.values number d hd, h⟩
  · dsimp only
    split
    · have hknown := h.know number (.inl rfl : (again number).IsPart)
      exact .ok ⟨.inl rfl, hknown.values, hknown.containers⟩
    · refine (c.isScalar_scalarValue _ number).bind fun d hd => ?_
      have hpart : d.IsPart := .inr hd.isSettled
      exact .ok ⟨hpart, h.know number hpart⟩

/-- Keys that differ for a document differ as values. -/
theorem sameKey_eq_false (h : c.sameKey k l = false) : Datum.sameKey k.value l.value = false := by
  rw [sameKey] at h
  dsimp only at h
  split at h
  · next hk hl =>
      rw [hk, hl]
      rfl
  · exact h

/-- Entries with different keys, whose values are parts. -/
structure AreEntries (es : List (Key × Datum)) : Prop where
  keys : es.Pairwise fun e f => Datum.sameKey e.1.value f.1.value = false
  values : ∀ e ∈ es, e.2.IsPart

theorem mem_insert {f : Key × Datum} (h : f ∈ c.insert key d es) :
    ((∃ e ∈ es, f.1 = e.1) ∨ f.1 = key) ∧ (f ∈ es ∨ f.2 = d) := by
  induction es with
  | nil =>
      obtain rfl := List.mem_singleton.mp h
      exact ⟨.inr rfl, .inr rfl⟩
  | cons e es ih =>
      rw [insert] at h
      split at h
      · rcases List.mem_cons.mp h with rfl | h
        · exact ⟨.inl ⟨e, List.mem_cons_self, rfl⟩, .inr rfl⟩
        · have hmem := List.mem_cons_of_mem e h
          exact ⟨.inl ⟨f, hmem, rfl⟩, .inl hmem⟩
      · rcases List.mem_cons.mp h with rfl | h
        · exact ⟨.inl ⟨f, List.mem_cons_self, rfl⟩, .inl List.mem_cons_self⟩
        · obtain ⟨hkey, hvalue⟩ := ih h
          refine ⟨hkey.imp_left ?_, hvalue.imp_left (List.mem_cons_of_mem e)⟩
          rintro ⟨g, hg, heq⟩
          exact ⟨g, List.mem_cons_of_mem e hg, heq⟩

theorem AreEntries.insert (h : AreEntries es) (c : Construction) (key : Key) (hd : d.IsPart) :
    AreEntries (c.insert key d es) where
  keys := by
    replace h := h.keys
    induction es with
    | nil => exact List.pairwise_singleton _ _
    | cons e es ih =>
        obtain ⟨hnew, hes⟩ := List.pairwise_cons.mp h
        rw [Construction.insert]
        split
        · exact List.pairwise_cons.mpr ⟨hnew, hes⟩
        · next hkey =>
            refine List.pairwise_cons.mpr ⟨fun f hf => ?_, ih hes⟩
            rcases (mem_insert hf).1 with ⟨g, hg, heq⟩ | heq
            · rw [heq]
              exact hnew g hg
            · rw [heq]
              exact sameKey_eq_false (Bool.not_eq_true _ ▸ hkey)
  values := by
    intro f hf
    rcases (mem_insert hf).2 with hf | rfl
    · exact h.values f hf
    · exact hd

theorem AreEntries.isContainer (h : AreEntries es) :
    (map (es.map fun e => (e.1.value, e.2))).IsContainer where
  isKnot := rfl
  isAgain := rfl
  keys := by
    rw [hasDifferentKeys_map, KeysDiffer, List.pairwise_map]
    exact h.keys
  parts := by
    intro p hp
    rw [parts, List.map_map] at hp
    obtain ⟨e, he, rfl⟩ := List.mem_map.mp hp
    exact h.values e he

theorem Holds.visitEntries (h : c.Holds) (entries : List (Nat × Nat)) :
    GivesWithin (fun r => AreEntries r.1 ∧ r.2.Holds) (c.visitEntries entries) := by
  refine .foldlM (fun acc e hacc => ?_) entries ⟨⟨.nil, fun e he => absurd he List.not_mem_nil⟩, h⟩
  refine (hacc.2.visit e.1).bind fun r hr => ?_
  dsimp only
  split
  · exact .error _ _
  · refine (hr.2.visit e.2).bind fun q hq => ?_
    exact .ok ⟨hacc.1.insert _ _ hq.1, hq.2⟩

theorem Holds.mappingEntries (h : c.Holds) (number : Nat) :
    GivesWithin (fun r => AreEntries r.1 ∧ r.2.Holds) (c.mappingEntries number) := by
  rw [Construction.mappingEntries]
  split
  · exact .error _ _
  · refine (GivesWithin.any _).bind fun nodes _ => ?_
    have hnodes : ({ c with nodes } : Construction).Holds := ⟨h.values, h.containers⟩
    exact hnodes.visitEntries _

/-- What is found for items one after the other are parts, if it is a part for each. -/
theorem Holds.foldlM_find (h : c.Holds)
    {find : Construction → Nat → Except Fault (Datum × Construction)}
    (hfind : ∀ (c : Construction) (number : Nat), c.Holds →
      GivesWithin (fun r => r.1.IsPart ∧ r.2.Holds) (find c number)) (items : List Nat) :
    GivesWithin (fun r => (∀ d ∈ r.1, d.IsPart) ∧ r.2.Holds) (do
      let (values, c) ← items.foldlM
        (fun acc item => do
          let (value, c) ← find acc.2 item
          return (value :: acc.1, c))
        (([] : List Datum), c)
      return (values.reverse, c)) := by
  have hrun : GivesWithin (fun r : List Datum × Construction => (∀ d ∈ r.1, d.IsPart) ∧ r.2.Holds)
      (items.foldlM
        (fun acc item => do
          let (value, c) ← find acc.2 item
          return (value :: acc.1, c))
        (([] : List Datum), c)) := by
    refine .foldlM (fun acc item hacc => ?_) items ⟨fun _ hd => absurd hd List.not_mem_nil, h⟩
    refine (hfind acc.2 item hacc.2).bind fun r hr => ?_
    exact .ok ⟨List.forall_mem_cons.mpr ⟨hr.1, hacc.1⟩, hr.2⟩
  refine hrun.bind fun r hr => ?_
  exact .ok ⟨fun d hd => hr.1 d (List.mem_reverse.mp hd), hr.2⟩

theorem Holds.visitItems (h : c.Holds) (items : List Nat) :
    GivesWithin (fun r => (∀ d ∈ r.1, d.IsPart) ∧ r.2.Holds) (c.visitItems items) :=
  h.foldlM_find (fun _ number hc => hc.visit number) items

theorem Holds.visitPair (h : c.Holds) (number : Nat) :
    GivesWithin (fun r => r.1.IsPart ∧ r.2.Holds) (c.visitPair number) := by
  rw [Construction.visitPair]
  split
  · refine (h.visit _).bind fun r hr => ?_
    refine (hr.2.visit _).bind fun q hq => ?_
    have hpair : (tuple [r.1, q.1]).IsContainer :=
      isContainer_tuple (by simpa using ⟨hr.1, hq.1⟩)
    have hcontained := hq.2.contain q.2.spare hpair
    exact .ok ⟨.inl rfl, hcontained.values, hcontained.containers⟩
  · exact .error _ _

theorem Holds.visitPairs (h : c.Holds) (items : List Nat) :
    GivesWithin (fun r => (∀ d ∈ r.1, d.IsPart) ∧ r.2.Holds) (c.visitPairs items) :=
  h.foldlM_find (fun _ number hc => hc.visitPair number) items

theorem Holds.fill (h : c.Holds) (number : Nat) : GivesWithin Holds (c.fill number) := by
  rw [Construction.fill]
  split
  · refine (h.mappingEntries number).bind fun r hr => ?_
    exact .ok (hr.2.contain number hr.1.isContainer)
  · refine (h.mappingEntries number).bind fun r hr => ?_
    exact .ok (hr.2.contain number (isContainer_set _))
  · refine (GivesWithin.any _).bind fun items _ => (h.visitPairs items).bind fun r hr => ?_
    exact .ok (hr.2.contain number (isContainer_list hr.1))
  · refine (GivesWithin.any _).bind fun items _ => (h.visitItems items).bind fun r hr => ?_
    exact .ok (hr.2.contain number (isContainer_list hr.1))

theorem Holds.fillFrom (h : c.Holds) (place fuel : Nat) :
    GivesWithin Holds (c.fillFrom place fuel) := by
  induction fuel generalizing c place with
  | zero => exact .ok h
  | succ fuel ih =>
      rw [Construction.fillFrom]
      split
      · exact .ok h
      · next number _ => exact (h.fill number).bind fun c hc => ih hc (place + 1)

end Construction

theorem Document.isWellFormed_toDatum (d : Document) :
    GivesWithin Datum.IsWellFormed d.toDatum := by
  rw [Document.toDatum]
  refine ((Construction.holds_start d.nodes).visit d.root).bind fun r hr => ?_
  refine (hr.2.fillFrom 0 (d.nodes.size + 1)).bind fun c hc => ?_
  refine .ok (isWellFormed_ofContainers (fun e he => hc.containers e ?_) hr.1)
  exact List.mem_reverse.mp he

/-- The value of every document is well formed. -/
theorem isWellFormed_read (s : List Char) : GivesWithin Datum.IsWellFormed (read s) := by
  rw [read]
  split
  · exact .error _ _
  · refine (GivesWithin.any _).bind fun document _ => ?_
    cases document with
    | none => exact .ok (.inl (IsScalar.isSettled trivial))
    | some document => exact document.isWellFormed_toDatum

end DocTags.Yaml
