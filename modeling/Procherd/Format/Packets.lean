-- SUMMARY: A stream that arrives in packets: what one bounded read takes of it, whatever the packets are.
import Mathlib.Data.List.Basic

/-!
# Streams in packets

How a stream is cut into packets is not up to the reader. A read takes at most
one packet; a packet that does not fit stays for the next read. `read_spec` says
what a read does in terms of the whole stream.
-/

namespace Packets

/-- What is still to arrive, and whether an error comes after it instead of the
    end of the stream. -/
structure Stream (α : Type) where
  packets : List (List α)
  fails : Bool := false
  nonempty : ∀ packet ∈ packets, packet ≠ []

namespace Stream

variable {α : Type}

def content (stream : Stream α) : List α := stream.packets.flatten

/-- Read at most `limit` units. Nothing read is the end of the stream, `none` is an
    error. -/
def read (limit : Nat) : Stream α → Option (List α) × Stream α
  | ⟨[], fails, nonempty⟩ => (if fails then none else some [], ⟨[], fails, nonempty⟩)
  | ⟨packet :: packets, fails, nonempty⟩ =>
    if h : packet.length ≤ limit then
      (some packet, ⟨packets, fails, (List.forall_mem_cons.mp nonempty).2⟩)
    else
      (some (packet.take limit), ⟨packet.drop limit :: packets, fails, List.forall_mem_cons.mpr
        ⟨fun hnil => h (List.drop_eq_nil_iff.mp hnil), (List.forall_mem_cons.mp nonempty).2⟩⟩)

/-- What a read can do. -/
inductive Read (limit : Nat) (stream : Stream α) : Option (List α) × Stream α → Prop where
  | failed : stream.content = [] → stream.fails → Read limit stream (none, stream)
  | ended : stream.content = [] → stream.fails = false → Read limit stream (some [], stream)
  | data {bytes : List α} {stream' : Stream α} : bytes ≠ [] → bytes.length ≤ limit →
      stream.content = bytes ++ stream'.content → stream'.fails = stream.fails →
      Read limit stream (some bytes, stream')

theorem read_spec {limit : Nat} (hlimit : 0 < limit) (stream : Stream α) :
    Read limit stream (stream.read limit) := by
  obtain ⟨packets, fails, nonempty⟩ := stream
  cases packets with
  | nil =>
    cases fails with
    | true => exact .failed rfl rfl
    | false => exact .ended rfl rfl
  | cons packet packets =>
    have hpacket := (List.forall_mem_cons.mp nonempty).1
    simp only [read]
    split
    · rename_i hfits
      exact .data hpacket hfits rfl rfl
    · rename_i hlong
      refine .data ?_ (List.length_take_le _ _) ?_ rfl
      · rw [ne_eq, List.take_eq_nil_iff, not_or]
        exact ⟨by omega, hpacket⟩
      · simp [content, ← List.append_assoc]

end Stream

end Packets
