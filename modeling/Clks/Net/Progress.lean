/-
How far a send gets (`clks_net_tcp_send`).

The peer acknowledges every segment that is sent to it. The length of a
chunk is the length of what is left as a 16-bit word, so that nothing of
`2 ^ 16` bytes is sent: a payload of this length or more comes to a
multiple of it, and the loop stays there with empty segments
(`sends_iff`).
-/
import Clks.Net.Send

namespace Clks.Net

namespace TcpConn

/-- Every chunk is acknowledged, and with the one segment that was sent
for it. -/
def EachAcked (iss : UInt32) :
    List (List Try) → List UInt8 → TcpConn → Prop
  | _, [], _ => True
  | [], _ :: _, _ => True
  | tries :: chunks, b :: left, c =>
    let r := c.sendChunk iss tries (b :: left)
    r.1 = .acked ∧ r.2.2.length = 1 ∧
      EachAcked iss chunks ((b :: left).drop (chunkLen (b :: left).length))
        r.2.1

/-- A peer that acknowledges every segment, however many chunks there
are. -/
def AcksAll (iss : UInt32) (peer : Nat → List Try) (payload : List UInt8)
    (c : TcpConn) : Prop :=
  ∀ n, c.EachAcked iss ((List.range n).map peer) payload

end TcpConn

/-- The send is over, and everything was sent, in segments that are
neither empty nor too long. -/
structure SendRun.Sends (payload : List UInt8) (r : SendRun) : Prop where
  returned : r.returned = some payload.length
  sizes : ∀ d ∈ r.sent,
    1 ≤ d.payload.length ∧ d.payload.length ≤ tcpSendMaxSegment
  data : r.sent.flatMap (·.payload) = payload

namespace TcpConn

-- ==== one chunk

section chunk

variable {c : TcpConn} {iss : UInt32} {tries : List Try}
  {left : List UInt8}

theorem tryLoop_carries (iss start e : UInt32) (chunk : List UInt8)
    (tries : List Try) (c : TcpConn) :
    ∀ d ∈ (tryLoop iss start e chunk tries c).2.2, d.payload = chunk := by
  induction tries generalizing c with
  | nil => simp [tryLoop]
  | cons t tries ih =>
    unfold tryLoop
    split_ifs
    · exact ih c
    · have hone : ∀ d ∈ [c.dataSegment start chunk], d.payload = chunk := by
        intro d hd
        rw [List.mem_singleton.mp hd]
        rfl
      simp only []
      generalize waitAck iss e t.polls c = r
      obtain ⟨o, c'⟩ := r
      cases o with
      | acked => exact hone
      | reset => exact hone
      | lost =>
        intro d hd
        cases hd with
        | head => rfl
        | tail _ hd => exact ih c' d hd

theorem sendChunk_one (h : (c.sendChunk iss tries left).2.2.length = 1) :
    ∃ d, (c.sendChunk iss tries left).2.2 = [d] ∧
      d.payload = left.take (chunkLen left.length) := by
  have hcarries : ∀ d ∈ (c.sendChunk iss tries left).2.2,
      d.payload = left.take (chunkLen left.length) :=
    tryLoop_carries iss _ _ _ _ _
  obtain ⟨d, hd⟩ := List.length_eq_one_iff.mp h
  rw [hd] at hcarries
  exact ⟨d, hd, hcarries d (List.mem_singleton_self d)⟩

theorem chunkLen_stuck {n : Nat} (h : 2 ^ 16 ≤ n) :
    2 ^ 16 ≤ n - chunkLen n := by
  unfold chunkLen
  have hdiv := Nat.div_add_mod n (2 ^ 16)
  have hpos : 1 ≤ n / 2 ^ 16 := (Nat.one_le_div_iff (by decide)).mpr h
  omega

theorem chunkLen_pos {n : Nat} (hpos : 0 < n) (h : n < 2 ^ 16) :
    1 ≤ chunkLen n := by
  unfold chunkLen
  rw [Nat.mod_eq_of_lt h]
  exact Nat.le_min.mpr ⟨hpos, by decide⟩

end chunk

-- ==== the loop

section loop

variable {iss : UInt32}

theorem sendLoop_stuck {chunks : List (List Try)} {left : List UInt8}
    {c : TcpConn} (h : c.EachAcked iss chunks left)
    (hlen : 2 ^ 16 ≤ left.length) (total : Nat) :
    (c.sendLoop iss chunks left total).returned = none := by
  induction chunks generalizing left total c with
  | nil =>
    cases left with
    | nil => exact absurd hlen (by decide)
    | cons b left => rfl
  | cons tries chunks ih =>
    cases left with
    | nil => exact absurd hlen (by decide)
    | cons b left =>
      obtain ⟨hacked, -, hnext⟩ := h
      have hleft := chunkLen_stuck hlen
      unfold sendLoop
      simp only []
      rw [if_pos hacked]
      refine ih hnext ?_ _
      rw [List.length_drop]
      exact hleft

theorem sendLoop_sends {peer : Nat → List Try} {left : List UInt8}
    {c : TcpConn} (h : c.AcksAll iss peer left)
    (hlen : left.length < 2 ^ 16) (total : Nat) :
    ∃ n, let r := c.sendLoop iss ((List.range n).map peer) left total
      r.returned = some (total + left.length) ∧
      (∀ d ∈ r.sent,
        1 ≤ d.payload.length ∧ d.payload.length ≤ tcpSendMaxSegment) ∧
      r.sent.flatMap (·.payload) = left := by
  induction hn : left.length using Nat.strongRecOn
    generalizing left peer total c with
  | ind m ih =>
    subst hn
    cases left with
    | nil => exact ⟨0, rfl, by simp [sendLoop], rfl⟩
    | cons b left =>
      have hcons : ∀ n, (List.range (n + 1)).map peer
          = peer 0 :: (List.range n).map (peer ∘ Nat.succ) := by
        intro n
        rw [List.range_succ_eq_map, List.map_cons, List.map_map]
      have hrec : ∀ n, c.EachAcked iss
          (peer 0 :: (List.range n).map (peer ∘ Nat.succ)) (b :: left) := by
        intro n
        rw [← hcons]
        exact h (n + 1)
      obtain ⟨hacked, hlen1, -⟩ := hrec 0
      obtain ⟨d, hd, hpay⟩ := sendChunk_one hlen1
      have hpos := chunkLen_pos (Nat.succ_pos left.length) hlen
      obtain ⟨hle, hmax⟩ := chunkLen_le (b :: left).length
      have hdrop : ((b :: left).drop (chunkLen (b :: left).length)).length
          = (b :: left).length - chunkLen (b :: left).length :=
        List.length_drop
      have hshort : ((b :: left).drop (chunkLen (b :: left).length)).length
          < (b :: left).length := by
        rw [hdrop]
        exact Nat.sub_lt (Nat.succ_pos _) hpos
      obtain ⟨n, hret, hsizes, hdata⟩ := ih _ hshort
        (fun n => (hrec n).2.2) (Nat.lt_trans hshort hlen)
        (total + chunkLen (b :: left).length) rfl
      refine ⟨n + 1, ?_⟩
      rw [hcons]
      unfold sendLoop
      simp only []
      rw [if_pos hacked, hd]
      refine ⟨?_, ?_, ?_⟩
      · show (sendLoop iss _ _ _ _).returned = _
        rw [hret, hdrop, Nat.add_assoc, Nat.add_sub_cancel' hle]
      · intro e he
        cases he with
        | head =>
          rw [hpay, List.length_take_of_le hle]
          exact ⟨hpos, hmax⟩
        | tail _ he => exact hsizes e he
      · show ([d] ++ _).flatMap (·.payload) = _
        rw [List.flatMap_append, hdata, List.flatMap_singleton, hpay]
        exact List.take_append_drop _ _

end loop

-- ==== the call

theorem tcpSend_usable {c : TcpConn} (h : c.usable = true) (iss : UInt32)
    (chunks : List (List Try)) (payload : List UInt8) :
    c.tcpSend iss chunks payload
      = if payload = [] then ⟨some 0, c, []⟩
        else c.sendLoop iss chunks payload 0 := by
  unfold tcpSend
  simp [h]

/-- A send to a peer that acknowledges every segment sends its payload
exactly if it is shorter than `2 ^ 16` bytes. -/
theorem sends_iff {c : TcpConn} {iss : UInt32} {peer : Nat → List Try}
    {payload : List UInt8} (hopen : c.usable = true)
    (h : c.AcksAll iss peer payload) :
    (∃ n, (c.tcpSend iss ((List.range n).map peer) payload).Sends payload) ↔
      payload.length < 2 ^ 16 := by
  have hrun := fun chunks => tcpSend_usable hopen iss chunks payload
  constructor
  · intro hsends
    obtain ⟨n, hret, -, -⟩ := hsends
    by_contra hlen
    have hsome : payload ≠ [] := by
      intro hnil
      rw [hnil] at hlen
      exact hlen (by decide)
    rw [hrun, if_neg hsome, sendLoop_stuck (h n) (Nat.not_lt.mp hlen)] at hret
    cases hret
  · intro hlen
    by_cases hnil : payload = []
    · subst hnil
      exact ⟨0, by rw [hrun]; exact ⟨rfl, by simp, rfl⟩⟩
    · obtain ⟨n, hret, hsizes, hdata⟩ := sendLoop_sends h hlen 0
      refine ⟨n, ?_⟩
      rw [hrun, if_neg hnil]
      rw [Nat.zero_add] at hret
      exact ⟨hret, hsizes, hdata⟩

/-- A try that the hardware takes, with a poll behind it that brings
nothing in. -/
def quietTry : List Try := [⟨true, [[]]⟩]

/-- A payload of zeros as long as a 16-bit word counts. -/
def fullTurn : List UInt8 := List.replicate (2 ^ 16) 0

theorem quietTry_acksAll {left : List UInt8}
    (hk : chunkLen left.length = 0) :
    (webConn .established).AcksAll 1 (fun _ => quietTry) left := by
  intro n
  rw [List.map_const', List.length_range]
  induction n with
  | zero => cases left <;> trivial
  | succ n ih =>
    have hrun : (webConn .established).sendChunk 1 quietTry left
        = (.acked, webConn .established,
          [(webConn .established).dataSegment 0 []]) := by
      unfold sendChunk
      simp only [hk]
      rfl
    cases left with
    | nil => trivial
    | cons b left =>
      refine ⟨congrArg Prod.fst hrun, ?_, ?_⟩
      · rw [hrun]
        rfl
      · rw [hrun, hk]
        exact ih

/-- The send of a payload of `2 ^ 16` bytes never ends, though nothing
that it sends is unacknowledged. -/
theorem fullTurn_not_sends :
    (webConn .established).AcksAll 1 (fun _ => quietTry) fullTurn ∧
      ¬ ∃ n, ((webConn .established).tcpSend 1
        ((List.range n).map fun _ => quietTry) fullTurn).Sends fullTurn := by
  have hlen : fullTurn.length = 2 ^ 16 := List.length_replicate
  have hacks : (webConn .established).AcksAll 1 (fun _ => quietTry)
      fullTurn := by
    refine quietTry_acksAll ?_
    rw [hlen]
    decide
  refine ⟨hacks, fun hsends => ?_⟩
  obtain ⟨n, hret, -, -⟩ := hsends
  rw [tcpSend_usable (by decide), if_neg, sendLoop_stuck (hacks n)] at hret
  · cases hret
  · exact Nat.le_of_eq hlen.symm
  · intro hnil
    rw [hnil] at hlen
    exact absurd hlen (by decide)

/-- A byte that the peer acknowledges. -/
theorem sends_iff_byte :
    (∃ n, ((webConn .established).tcpSend 1 ((List.range n).map fun _ =>
        [⟨true, [[bareSegment 1 1 flagAck]]⟩]) [7]).Sends [7]) ↔
      [(7 : UInt8)].length < 2 ^ 16 := by
  refine sends_iff (by decide) ?_
  intro n
  cases n with
  | zero => trivial
  | succ n =>
    rw [List.range_succ_eq_map, List.map_cons]
    refine ⟨by decide +kernel, by decide +kernel, ?_⟩
    cases (List.range n).map Nat.succ with
    | nil => trivial
    | cons m ms => trivial

end TcpConn

end Clks.Net
