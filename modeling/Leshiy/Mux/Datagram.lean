import Leshiy.Mux.Step

/-!
# Sending a datagram

The datagram branch of `Stream::send` (`leshiy-core/src/mux.rs`), as its caller sees it: one result when
the call has returned. A relay that sends on a stream waits for that result, so this is all that it
learns about the mux.
-/

namespace Leshiy

open Leshiy.Lib

/-- What `Display` writes (`leshiy-core/src/error.rs`). -/
def Error.text : Error → String
  | .protocol detail => "protocol violation: " ++ detail
  | .frameTooLarge len => s!"frame too large: {len} bytes (max {MAX_PLAINTEXT})"
  | .version detail => "version negotiation failed: " ++ detail
  | .closed => "connection closed"

namespace Mux

/-- `live` says that the window and the command queue stay open until the frame is queued. -/
def sendDatagram (data : Bytes) (live : Bool) : Except Error Unit :=
  if MAX_FRAME_PAYLOAD < data.length then
    .error (.protocol "datagram exceeds max frame payload")
  else if live then .ok ()
  else .error .closed

theorem sendDatagram_eq_ok {data : Bytes} {live : Bool} :
    sendDatagram data live = .ok () ↔ data.length ≤ MAX_FRAME_PAYLOAD ∧ live = true := by
  unfold sendDatagram
  by_cases hlen : MAX_FRAME_PAYLOAD < data.length
  · simp [hlen]
  · cases live <;> simp [hlen, Nat.not_lt.mp hlen]

/-- The call of the mux starts exactly where this has no error of its own, and takes nothing from the
endpoint where it has. -/
theorem sendCall_datagram {e : Endpoint} {h : Nat} {st : Stream} (hst : e.held h = some st)
    (hkind : st.kind ≠ .tcp) (data : Bytes) :
    e.sendCall h data =
      match sendDatagram data true with
      | .ok () => some (e.modify h fun st => { st with sends := st.sends ++ [⟨data, [], false⟩] },
          [.sendCalled h data])
      | .error err => some (e, [.failed err]) := by
  unfold Endpoint.sendCall sendDatagram
  rw [hst]
  cases hk : st.kind with
  | tcp => exact absurd hk hkind
  | udp | icmp =>
    simp only [hk, if_true]
    by_cases hlen : MAX_FRAME_PAYLOAD < data.length
    · rw [if_pos hlen, if_pos hlen]
    · rw [if_neg hlen, if_neg hlen]

end Mux

end Leshiy
