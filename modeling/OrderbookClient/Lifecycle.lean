import OrderbookClient.Client
import OrderbookClient.Runs

/-! # The lifecycle of a connection, as it is meant

An abstract model of the client.  A `View` is what matters of its state: the current channel, how
far the handshake is on it, and whether it takes writes.  `Move` says how these may change and
which events that emits: a channel is dialled, asks for the upgrade, is opened, is closed, in this
order and each at most once, and can stop taking writes at any time.

`Safe` holds along every trail of moves.  Its main points: once `onopen` was emitted for the
current channel, the handshake is complete or the channel takes no more writes; and the upgrade,
`onopen` and `onclose` are emitted at most once for a channel. -/

namespace OrderbookClient.Hv

open Runs

/-- The channel an event is about. -/
def Event.chan : Event → ℕ
  | .upgradeWritten id => id
  | .onopen id => id
  | .onmessage id _ => id
  | .onclose id => id
  | .frame id _ => id

/-- The events that mark a stage of the lifecycle. -/
def Event.isStage : Event → Bool
  | .upgradeWritten _ => true
  | .onopen _ => true
  | .onclose _ => true
  | _ => false

/-- What the lifecycle sees of a client. -/
structure View where
  chan : ℕ
  phase : State
  writable : Bool

/-- One move of the lifecycle, with the events it emits. -/
inductive Move : View → List Event → View → Prop
  /-- The channel stops taking writes. -/
  | shut (v : View) : Move v [] { v with writable := false }
  /-- While it is dialled, the link may go up and down. -/
  | link (v : View) (b : Bool) : v.phase = .connecting → Move v [] { v with writable := b }
  /-- The client gives the channel up. -/
  | giveUp (v : View) : v.writable = false → Move v [] { v with phase := .wsClosed }
  /-- The channel is closed, and the user is told. -/
  | close (v : View) : v.writable = false → v.phase ≠ .wsClosed →
      Move v [.onclose v.chan] { v with phase := .wsClosed }
  /-- A new channel is dialled. -/
  | dial (v : View) (id : ℕ) : v.chan < id → v.phase = .wsClosed ∨ v.phase = .connecting →
      Move v [] ⟨id, .connecting, true⟩
  /-- The connection is established and the upgrade is asked for, if the channel takes it. -/
  | upgrade (v : View) (taken : Bool) : v.phase = .connecting →
      Move v (if taken then [.upgradeWritten v.chan] else []) { v with phase := .wsUpgrading }
  /-- The handshake is complete. -/
  | opened (v : View) : v.phase = .wsUpgrading → Move v [.onopen v.chan] { v with phase := .wsOpened }
  /-- A message is delivered; one chunk may hold some behind the message that closes. -/
  | message (v : View) (msg : Json.Bytes) : v.phase = .wsOpened ∨ v.phase = .wsClosed →
      Move v [.onmessage v.chan msg] v
  /-- The channel takes a frame. -/
  | frame (v : View) : v.writable = true → Move v [.frame v.chan v.phase] v

/-- What holds along every trail from the initial view. -/
structure Safe (log : List Event) (v : View) : Prop where
  /-- Channels are never used again. -/
  chan_le : ∀ e ∈ log, e.chan ≤ v.chan
  upgrade : v.phase = .connecting → .upgradeWritten v.chan ∉ log
  opened : .onopen v.chan ∈ log → v.phase = .wsOpened ∨ v.phase = .wsClosed
  closed : v.phase = .wsClosed → v.writable = false
  onclose : .onclose v.chan ∈ log → v.phase = .wsClosed
  once : (log.filter Event.isStage).Nodup

theorem Safe.init : Safe [] ⟨0, .wsClosed, false⟩ where
  chan_le := by simp
  upgrade := by simp
  opened := by simp
  closed := by simp
  onclose := by simp
  once := by simp

/-- A stage that was not reached before is reached once. -/
theorem once_concat {log : List Event} (h : (log.filter Event.isStage).Nodup) {e : Event}
    (he : e ∉ log) : ((log ++ [e]).filter Event.isStage).Nodup := by
  rw [List.filter_append, List.nodup_append]
  refine ⟨h, List.Nodup.filter _ (List.nodup_singleton e), ?_⟩
  intro a ha b hb hab
  obtain rfl : b = e := by simpa using List.mem_of_mem_filter hb
  exact he (hab ▸ List.mem_of_mem_filter ha)

theorem once_concat_other {log : List Event} (h : (log.filter Event.isStage).Nodup) {e : Event}
    (he : e.isStage = false) : ((log ++ [e]).filter Event.isStage).Nodup := by
  simpa [List.filter_append, he] using h

/-- A new channel has no events yet. -/
theorem Safe.fresh {log : List Event} {v : View} (h : Safe log v) {id : ℕ} (hid : v.chan < id)
    {e : Event} (he : e.chan = id) : e ∉ log := by
  intro hmem
  have := h.chan_le e hmem
  omega

theorem Safe.move {log : List Event} {v : View} {es : List Event} {w : View} (h : Safe log v)
    (hm : Move v es w) : Safe (log ++ es) w := by
  cases hm with
  | shut => exact ⟨by simpa using h.chan_le, by simpa using h.upgrade, by simpa using h.opened,
      fun _ => rfl, by simpa using h.onclose, by simpa using h.once⟩
  | link b hp =>
      refine ⟨by simpa using h.chan_le, by simpa using h.upgrade, by simpa using h.opened, ?_,
        by simpa using h.onclose, by simpa using h.once⟩
      intro hc
      rw [show v.phase = .wsClosed from hc] at hp
      cases hp
  | giveUp hw => exact ⟨by simpa using h.chan_le, by simp, by simp, fun _ => hw, by simp,
      by simpa using h.once⟩
  | close hw hp =>
      refine ⟨?_, by simp, by simp, fun _ => hw, by simp, once_concat h.once (mt h.onclose hp)⟩
      simpa [or_imp, forall_and, Event.chan] using h.chan_le
  | dial id hid hp =>
      have hfresh : ∀ e : Event, e.chan = id → e ∉ log ++ [] := by
        intro e he
        simpa using h.fresh hid he
      refine ⟨?_, fun _ => hfresh _ rfl, fun hc => absurd hc (hfresh _ rfl), by simp,
        fun hc => absurd hc (hfresh _ rfl), by simpa using h.once⟩
      intro e he
      exact le_trans (h.chan_le e (by simpa using he)) hid.le
  | upgrade taken hp =>
      have hopened : .onopen v.chan ∉ log := by
        intro hc
        simpa [hp] using h.opened hc
      have honclose : .onclose v.chan ∉ log := by
        intro hc
        simpa [hp] using h.onclose hc
      cases taken with
      | false => exact ⟨by simpa using h.chan_le, by simp, by simpa using hopened, by simp,
          by simpa using honclose, by simpa using h.once⟩
      | true =>
          refine ⟨?_, by simp, by simpa using hopened, by simp, by simpa using honclose,
            once_concat h.once (h.upgrade hp)⟩
          simpa [or_imp, forall_and, Event.chan] using h.chan_le
  | opened hp =>
      have hopened : .onopen v.chan ∉ log := by
        intro hc
        simpa [hp] using h.opened hc
      have honclose : .onclose v.chan ∉ log := by
        intro hc
        simpa [hp] using h.onclose hc
      refine ⟨?_, by simp, by simp, by simp, by simpa using honclose, once_concat h.once hopened⟩
      simpa [or_imp, forall_and, Event.chan] using h.chan_le
  | message msg hp =>
      refine ⟨?_, by simpa using h.upgrade, by simpa using h.opened, h.closed,
        by simpa using h.onclose, once_concat_other h.once rfl⟩
      simpa [or_imp, forall_and, Event.chan] using h.chan_le
  | frame hw =>
      refine ⟨?_, by simpa using h.upgrade, by simpa using h.opened, h.closed,
        by simpa using h.onclose, once_concat_other h.once rfl⟩
      simpa [or_imp, forall_and, Event.chan] using h.chan_le

/-- **Every trail is safe.** -/
theorem Safe.trail {log : List Event} {v : View}
    (h : Trail Move ⟨0, .wsClosed, false⟩ log v) : Safe log v :=
  h.invariant (fun _ _ _ _ hs hm => hs.move hm) .init

/-- **Channels are not used again**: along a trail the channel is the same or a later one, and the
same one is not connected a second time. -/
theorem trail_past {v w : View} {es : List Event} (h : Trail Move v es w) :
    v.chan ≤ w.chan ∧ (w.chan = v.chan → v.phase ≠ .connecting → w.phase ≠ .connecting) := by
  apply h.invariant (I := fun _ w => v.chan ≤ w.chan ∧
    (w.chan = v.chan → v.phase ≠ .connecting → w.phase ≠ .connecting))
  · rintro _ u _ w ⟨hle, hpast⟩ hm
    cases hm with
    | shut | link | message | frame => exact ⟨hle, hpast⟩
    | giveUp | close | opened => exact ⟨hle, fun _ _ => by simp⟩
    | upgrade => exact ⟨hle, fun _ _ => by simp⟩
    | dial id hid =>
        refine ⟨le_trans hle hid.le, ?_⟩
        intro hbad
        exact absurd hbad (lt_of_le_of_lt hle hid).ne'
  · exact ⟨le_rfl, fun _ h => h⟩

/-- **A channel that takes a write after `onopen` has its handshake complete.** -/
theorem Safe.opened_of_writable {log : List Event} {v : View} (h : Safe log v)
    (ho : .onopen v.chan ∈ log) (hw : v.writable = true) : v.phase = .wsOpened := by
  obtain hp | hp := h.opened ho
  · exact hp
  · rw [h.closed hp] at hw
    cases hw

end OrderbookClient.Hv
