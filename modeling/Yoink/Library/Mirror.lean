import Mathlib.Data.List.Nodup

/-!
# Snapshots that are kept up to date

A reader copies the parts of a source one at a time and starts over when it is notified; the source
goes on changing meanwhile. `Moves` is what this asks of the source: a change is notified, or its
notification is due, and what is due stays due until then. Then a reader at rest has the source as
it is (`Fresh.agrees`), however its reads and the changes were interleaved.
-/

universe u v w

/-- What a snapshot has in common with its source, part by part. -/
structure Mirror (σ : Type u) (ι : Type v) (β : Type w) where
  /-- The snapshot has this part as the source has it. -/
  Agrees : ι → β → σ → Prop
  /-- A notification on account of this part is still to come. -/
  Due : ι → σ → Prop

/-- A reader of a source. -/
structure Reader (ι : Type v) (β : Type w) where
  /-- The parts it has still to read before it rests. -/
  unread : List ι
  /-- It has been notified since it last started over. -/
  noted : Bool
  snapshot : β

namespace Mirror

variable {σ : Type u} {ι : Type v} {β : Type w} (M : Mirror σ ι β)

/-- A step of the source. -/
structure Moves (s s' : σ) (notified : Bool) : Prop where
  agrees : ∀ i b, M.Agrees i b s → M.Agrees i b s' ∨ M.Due i s' ∨ notified = true
  due : ∀ i, M.Due i s → M.Due i s' ∨ notified = true

/-- A step of the source or of the reader, who reads all of `parts` in a pass. -/
inductive Step (parts : List ι) : σ × Reader ι β → σ × Reader ι β → Prop where
  | source {s s' : σ} {r : Reader ι β} {notified : Bool} (h : M.Moves s s' notified) :
      Step parts (s, r) (s', { r with noted := r.noted || notified })
  /-- A notification is taken; there may be more of them. -/
  | restart {s : σ} {r : Reader ι β} (more : Bool) :
      Step parts (s, r) (s, ⟨parts, more, r.snapshot⟩)
  /-- What is read may be out of date already, if a notification tells. -/
  | read {s : σ} {r : Reader ι β} {i : ι} {rest : List ι} {b : β} (hu : r.unread = i :: rest)
      (hread : r.noted = true ∨ M.Due i s ∨ M.Agrees i b s)
      (hkeep : ∀ j, j ≠ i → M.Agrees j r.snapshot s → M.Agrees j b s) :
      Step parts (s, r) (s, ⟨rest, r.noted, b⟩)

/-- The part is still to be read, or its change is still to be told, or it has been read as
it is. -/
def Fresh (s : σ) (r : Reader ι β) (i : ι) : Prop :=
  i ∈ r.unread ∨ r.noted = true ∨ M.Due i s ∨ M.Agrees i r.snapshot s

variable {M}

/-- A reader that has everything to read has nothing out of date. -/
theorem fresh_of_unread {s : σ} {r : Reader ι β} {parts : List ι} (hu : r.unread = parts)
    {i : ι} (hi : i ∈ parts) : M.Fresh s r i :=
  .inl (hu ▸ hi)

theorem Fresh.source {s s' : σ} {r r' : Reader ι β} {notified : Bool} {i : ι} (h : M.Fresh s r i)
    (hm : M.Moves s s' notified) (hu : r'.unread = r.unread) (hs : r'.snapshot = r.snapshot)
    (hn : r'.noted = (r.noted || notified)) : M.Fresh s' r' i := by
  unfold Fresh
  rw [hu, hs, hn]
  obtain h | h | h | h := h
  · exact .inl h
  · exact .inr (.inl (by simp [h]))
  · obtain h | h := hm.due i h
    · exact .inr (.inr (.inl h))
    · exact .inr (.inl (by simp [h]))
  · obtain h | h | h := hm.agrees i _ h
    · exact .inr (.inr (.inr h))
    · exact .inr (.inr (.inl h))
    · exact .inr (.inl (by simp [h]))

/-- Every step keeps the parts fresh. -/
theorem Step.fresh {parts : List ι} {p p' : σ × Reader ι β} (h : M.Step parts p p')
    (hf : ∀ i ∈ parts, M.Fresh p.1 p.2 i) : ∀ i ∈ parts, M.Fresh p'.1 p'.2 i := by
  intro i hi
  cases h with
  | source hm => exact (hf i hi).source hm rfl rfl rfl
  | restart more => exact fresh_of_unread rfl hi
  | @read s r j rest b hu hread hkeep =>
    by_cases hij : i = j
    · subst hij
      exact .inr hread
    · obtain h | h | h | h := hf i hi
      · have hmem : i ∈ j :: rest := hu ▸ h
        exact .inl ((List.mem_cons.mp hmem).resolve_left hij)
      · exact .inr (.inl h)
      · exact .inr (.inr (.inl h))
      · exact .inr (.inr (.inr (hkeep i hij h)))

/-- At rest, and with nothing still to be told, a reader has the part as it is. -/
theorem Fresh.agrees {s : σ} {r : Reader ι β} {i : ι} (h : M.Fresh s r i) (hu : r.unread = [])
    (hn : r.noted = false) (hd : ¬ M.Due i s) : M.Agrees i r.snapshot s := by
  obtain h | h | h | h := h
  · simp [hu] at h
  · simp [hn] at h
  · exact absurd h hd
  · exact h

end Mirror
