import Yoink.Network.Channels
import Yoink.Sync.Hellos

/-!
# Bytes between the instances

A net carries frames decoded, and nothing is lost by that: an instance writes only frames that
the codec gives back, so what the other end reads is what it decodes from the bytes. The run of
each instance in a net is therefore one on byte strings.
-/

namespace Yoink

namespace Net

variable {N D : Type} [DecidableEq N] [Yrs D Bytes] {n n' : Net N D Bytes}

/-- The codec gives back every frame on its way, and every HELLO yet to be written. -/
structure Encodable (n : Net N D Bytes) : Prop where
  inbox : ∀ e, ∀ f ∈ n.inbox e, f.Sound
  nodes : ∀ i, (n.node i).ScopesNamed

omit [DecidableEq N] in
theorem new_encodable (device : N → DeviceInfo) (trust : N → TrustSettings)
    (rooms : N → List String) : (new device trust rooms : Net N D Bytes).Encodable where
  inbox e f hf := by cases hf
  nodes i := Manager.new_scopesNamed (device i) (trust i) (rooms i)

omit [Yrs D Bytes] in
/-- What is read was on its way. -/
theorem Encodable.sound_of_reads (h : n.Encodable) {i : N} {act : Action Bytes}
    (hc : n.carries i act = true) {e : EndId} {payload : Option (Frame Bytes)}
    (hr : act.reads e = some payload) : ∃ f, payload = some f ∧ f.Sound := by
  obtain ⟨f, rest, hin, rfl⟩ := carries_reads hc hr
  exact ⟨f, rfl, h.inbox e f (hin ▸ List.mem_cons_self)⟩

omit [Yrs D Bytes] in
theorem Encodable.readsNamed (h : n.Encodable) {i : N} {act : Action Bytes}
    (hc : n.carries i act = true) : act.ReadsNamed := by
  intro e hello hr
  obtain ⟨f, hf, hsound⟩ := h.sound_of_reads hc hr
  exact (hsound hello (Option.some.inj hf).symm).scope

omit [Yrs D Bytes] in
/-- A step of one instance, and what the others still hold. -/
theorem Encodable.update (h : n.Encodable) {i : N} {m : Manager D Bytes} (hm : m.ScopesNamed)
    (k : N) : (Function.update n.node i m k).ScopesNamed := by
  by_cases hk : k = i
  · subst hk
    rwa [Function.update_self]
  · rw [Function.update_of_ne hk]
    exact h.nodes k

theorem Encodable.step (h : n.Encodable) {a : NetAction N Bytes} (hs : n.Step a n')
    (hframe : ∀ i e t, (n.node i).conns e = some t → ∀ f, t.phase.frame = some f →
      f.isHello = false) : n'.Encodable := by
  cases hs with
  | start | crash => exact ⟨h.inbox, h.nodes⟩
  | @connect i j l sock m hi hj hd ha hm =>
    refine ⟨h.inbox, h.update ((h.nodes i).step (Manager.step_cases hm) fun e hello hr => ?_)⟩
    cases hr
  | @node i act m hu hc hm =>
    have hstep := Manager.step_cases hm
    refine ⟨fun e f hf => ?_, h.update ((h.nodes i).step hstep (h.readsNamed hc))⟩
    obtain hf | hf := List.mem_append.mp hf
    · -- What was on its way before.
      refine h.inbox e f ?_
      split at hf
      · exact List.mem_of_mem_tail hf
      · exact hf
    · intro hello hello_eq
      subst hello_eq
      exact (h.nodes i).helloSent hstep (hframe i e.flip) (Option.mem_toList.mp hf)

variable {device : N → DeviceInfo} {τ : Trace N D Bytes}

theorem Run.encodable (h : (network D Bytes device).Run τ n) : n.Encodable := by
  refine System.Run.history (S := network D Bytes device) (I := fun _ n => n.Encodable) ?_ ?_ h
  · rintro n ⟨trust, rooms, rfl⟩
    exact new_encodable device trust rooms
  · intro τ n a n' hr hI hs
    refine hI.step (step_cases hs) fun i e t ht => ?_
    exact ((Manager.Run.spoken (Run.history hr i) e).2 t ht).frame

/-- What an instance takes from a socket is what its decoder makes of the bytes written there. -/
theorem Run.onWire {json : SerdeJson} (hjson : json.RoundTrips)
    (h : (network D Bytes device).Run τ n) {t : Transition (Net N D Bytes) (NetAction N Bytes)}
    (ht : t ∈ τ) {i : N} {act : Action Bytes} (ha : t.act.at i = some act) : act.OnWire json := by
  intro e payload hr
  obtain ⟨τ₁, τ₂, hτ⟩ := List.append_of_mem ht
  obtain ⟨hrun, hs⟩ := h.split hτ
  have hnode : t.act = .node i act := by
    refine NetAction.of_at ha fun l e' hconn => ?_
    rw [hconn] at hr
    cases hr
  have hstep : t.pre.Step (.node i act) t.post := hnode ▸ step_cases hs
  obtain ⟨f, rfl, hsound⟩ := (Run.encodable hrun).sound_of_reads hstep.carries hr
  exact ⟨f.encode json, (congrArg Except.toOption (Frame.decode_encode hjson hsound)).symm⟩

/-- An instance of a net runs on byte strings. -/
theorem Run.history_onWire {json : SerdeJson} (hjson : json.RoundTrips)
    (h : (network D Bytes device).Run τ n) (i : N) :
    ((system D Bytes (device i)).restrict fun _ a _ => a.OnWire json).Run (historyOf i τ)
      (n.node i) := by
  refine (Run.history h i).to_restrict fun u hu => ?_
  obtain ⟨t, ht, hu⟩ := List.mem_filterMap.mp hu
  obtain ⟨act, ha, rfl⟩ := Option.map_eq_some_iff.mp hu
  exact Run.onWire hjson h ht ha

end Net

end Yoink
