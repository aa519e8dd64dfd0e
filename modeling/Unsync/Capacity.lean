import Unsync.Spsc.Capacity
import Unsync.Broadcast.Capacity
import Unsync.Broadcast.Delivery

/-!
# The capacity of bounded channels

Both bounded channels ask their queues for the capacity that they were given, and look at
the capacity that the queues report. For messages that take no space that is the largest
number there is, so that such channels do not push back where they should.
-/

namespace Unsync

open Runs

/-- In every run of `spsc::channel(c)` no more than `c` messages are accepted and not yet
received, and while there is a receiver `try_send` fails and `send` is pending exactly when
there are `c`; and in every run of `broadcast::channel(c)` no buffer holds more than `c`
messages, and `try_send` skips a receiver and `send` waits for it exactly when its buffer
holds `c`. Each of the two is so exactly when messages take space, or `c` is the largest
number, or there are no messages to send. -/
theorem channels_are_bounded_iff {T W : Type} [Target] [Layout T] [Waker W] {c : Nat}
    (h0 : 0 < c) (hc : c ≤ usizeMax) :
    ((∀ ops : List (Spsc.Op T W), ∃ outs s,
        run Spsc.Sys.step (Spsc.Sys.new (Spsc.Setup.bounded c).create) ops = .ok (outs, s) ∧
          Spsc.BoundedBy c s) ↔
      Layout.zeroSized T = false ∨ c = usizeMax ∨ IsEmpty T) ∧
    ((∀ ops : List (Broadcast.Op T W), ∃ outs s,
        run Broadcast.Sys.step (Broadcast.Sys.new (Broadcast.Setup.bounded c).create) ops =
          .ok (outs, s) ∧ Broadcast.BoundedBy c s) ↔
      Layout.zeroSized T = false ∨ c = usizeMax ∨ IsEmpty T) :=
  ⟨Spsc.channel_boundedBy_iff h0 hc, Broadcast.channel_boundedBy_iff h0 hc⟩

/-- Channels for three numbers are bounded. -/
theorem channels_are_bounded_iff_three_numbers :
    ((∀ ops : List (Spsc.Op Nat Nat), ∃ outs s,
        run (@Spsc.Sys.step Nat Nat Broadcast.numberedWaker ⟨64, by decide⟩)
          (Spsc.Sys.new (@Spsc.Setup.create Nat Nat ⟨64, by decide⟩ ⟨false⟩ (.bounded 3))) ops =
            .ok (outs, s) ∧
          @Spsc.BoundedBy Nat Nat ⟨64, by decide⟩ Broadcast.numberedWaker 3 s) ↔
      false = false ∨ 3 = @usizeMax ⟨64, by decide⟩ ∨ IsEmpty Nat) ∧
    ((∀ ops : List (Broadcast.Op Nat Nat), ∃ outs s,
        run (@Broadcast.Sys.step Nat Nat Broadcast.numberedWaker ⟨64, by decide⟩ ⟨false⟩)
          (Broadcast.Sys.new (Broadcast.Setup.bounded 3).create) ops = .ok (outs, s) ∧
          @Broadcast.BoundedBy Nat Nat ⟨64, by decide⟩ ⟨false⟩ Broadcast.numberedWaker 3 s) ↔
      false = false ∨ 3 = @usizeMax ⟨64, by decide⟩ ∨ IsEmpty Nat) :=
  @channels_are_bounded_iff Nat Nat ⟨64, by decide⟩ ⟨false⟩ Broadcast.numberedWaker 3
    (by decide) (by decide)

/-- A channel for one message takes two that take no space, as does the buffer of a receiver. -/
theorem channel_for_one_unit_takes_two :
    (∃ outs s, run (@Spsc.Sys.step Unit Nat Broadcast.numberedWaker ⟨64, by decide⟩)
        (Spsc.Sys.new (@Spsc.Setup.create Unit Nat ⟨64, by decide⟩ ⟨true⟩ (.bounded 1)))
        [.trySend (), .trySend ()] = .ok (outs, s) ∧
      ¬(Spsc.unreceived s).length ≤ 1) ∧
    ∃ outs s, run (@Broadcast.Sys.step Unit Nat Broadcast.numberedWaker ⟨64, by decide⟩ ⟨true⟩)
        (Broadcast.Sys.new (Broadcast.Setup.bounded 1).create)
        [.subscribe 0, .trySend (), .trySend ()] = .ok (outs, s) ∧
      ∃ b r st, s.inner = some b ∧ r ∈ s.receivers ∧
        b.value.receivers.get? r.index = some st ∧ ¬st.buf.len ≤ 1 :=
  ⟨⟨_, _, rfl, by decide⟩, _, _, rfl, _, _, _, rfl, List.mem_cons_self, rfl, by decide⟩

end Unsync
