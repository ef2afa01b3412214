import Ipxe.Library.Runs
import Ipxe.Model.Peerblk

/-!
# The count of open PeerDist downloads

The count is raised once a connection has been opened, but lowered for every block that leaves the
queue unlisted, also for one whose connection could not be opened.
-/

namespace Ipxe.Analysis

open Library Model List

/-- The count is that of the blocks with an open download, and within the maximum. -/
def OpensCounted (queue : PeerdistBlockQueue) : Prop :=
  ∃ opened : Finset ℕ, (∀ b, (queue.blocks b).raw = true ↔ b ∈ opened) ∧
    queue.count.toNat = opened.card ∧ queue.count ≤ queue.max

/-- The queue has the listed blocks and those with an open download. -/
structure PeerblkInv (queue : PeerdistBlockQueue) (opened : Finset ℕ) : Prop where
  nodup : queue.list.Nodup
  apart : ∀ b ∈ queue.list, b ∉ opened
  raw : ∀ b, (queue.blocks b).raw = true ↔ b ∈ opened
  queued : ∀ b, (queue.blocks b).queue = true ↔ b ∈ queue.list ∨ b ∈ opened
  count : queue.count.toNat = opened.card
  max : queue.count ≤ queue.max

section

variable {queue : PeerdistBlockQueue} {opened : Finset ℕ} {b : ℕ}
  (h : PeerblkInv queue opened)

include h

theorem PeerblkInv.update (b : ℕ) {change : PeerdistBlock → PeerdistBlock}
    (hraw : ∀ peerblk, (change peerblk).raw = peerblk.raw)
    (hqueue : ∀ peerblk, (change peerblk).queue = peerblk.queue) :
    PeerblkInv (queue.update b change) opened := by
  obtain ⟨hnodup, hapart, hr, hq, hcount, hmax⟩ := h
  refine ⟨hnodup, hapart, ?_, ?_, hcount, hmax⟩
  all_goals
    simp only [PeerdistBlockQueue.update, Function.update_apply]
    grind

/-- **A reset takes a block out of the queue**, whether it is listed or has an open
download. -/
theorem PeerblkInv.reset (b : ℕ) :
    PeerblkInv (peerblkReset queue b) (opened.erase b) ∧ b ∉ (peerblkReset queue b).list := by
  obtain ⟨hnodup, hapart, hraw, hqueued, hcount, hmax⟩ := h
  unfold peerblkReset peerblkDequeue PeerdistBlockQueue.update
  simp only [Function.update_self, Function.update_idem]
  split_ifs with hb hlist
  · refine ⟨⟨hnodup.erase b, ?_, ?_, ?_, ?_, hmax⟩, hnodup.not_mem_erase⟩
    all_goals
      grind [Finset.erase_eq_of_notMem]
  · have hopened : b ∈ opened := ((hqueued b).1 hb).resolve_left hlist
    have hpos := Finset.card_pos.2 ⟨b, hopened⟩
    refine ⟨⟨hnodup, ?_, ?_, ?_, ?_, ?_⟩, hlist⟩
    all_goals simp only [Function.update_apply, Finset.card_erase_of_mem hopened]
    · grind
    · grind
    · grind
    · bv_omega
    · bv_omega
  · refine ⟨⟨hnodup, ?_, ?_, ?_, ?_, hmax⟩, ?_⟩
    all_goals
      grind [Finset.erase_eq_of_notMem]

theorem PeerblkInv.close (b : ℕ) : PeerblkInv (peerblkClose queue b) (opened.erase b) :=
  (h.reset b).1.update b (fun _ => rfl) fun _ => rfl

theorem PeerblkInv.enqueue (hlist : b ∉ queue.list) (hopened : b ∉ opened) :
    PeerblkInv (peerblkEnqueue queue b) opened := by
  obtain ⟨hnodup, hapart, hr, hq, hcount, hmax⟩ := h
  refine ⟨?_, ?_, ?_, ?_, hcount, hmax⟩
  all_goals
    simp only [peerblkEnqueue, PeerdistBlockQueue.update, Function.update_apply]
    grind

theorem PeerblkInv.expired (b : ℕ) (opens : List Bool) :
    PeerblkInv (peerblkExpired queue b opens) (opened.erase b) := by
  obtain ⟨hinv, hlist⟩ := h.reset b
  have hcycles (cycles : ℕ) :
      PeerblkInv ((peerblkReset queue b).update b ({ · with cycles := cycles })) (opened.erase b) :=
    hinv.update b (fun _ => rfl) fun _ => rfl
  unfold peerblkExpired
  simp only
  generalize (if ((peerblkReset queue b).blocks b).peer = .head then 1 else 0) = more
  split
  · rw [← Finset.erase_idem]
    exact (hcycles _).close b
  split
  · exact (hcycles _).update b (fun _ => rfl) fun _ => rfl
  · refine PeerblkInv.enqueue ?_ hlist (Finset.notMem_erase b opened)
    exact (hcycles _).update b (fun _ => rfl) fun _ => rfl

/-- No connection is tried that cannot be opened. -/
def NoFailedOpen (queue : PeerdistBlockQueue) (event : PeerblkEvent) : Prop :=
  event = .step false → queue.max ≤ queue.count ∨ queue.list = []

theorem PeerblkInv.opens {list : List ℕ} (hroom : queue.count < queue.max)
    (hlist : queue.list = b :: list) :
    PeerblkInv { { queue with list := list }.update b ({ · with raw := true }) with
      count := queue.count + 1 } (insert b opened) := by
  obtain ⟨hnodup, hapart, hraw, hqueued, hcount, hmax⟩ := h
  simp only [hlist] at hnodup hapart hqueued
  have hnew : b ∉ opened := hapart b mem_cons_self
  refine ⟨hnodup.of_cons, ?_, ?_, ?_, ?_, ?_⟩
  all_goals
    simp only [PeerdistBlockQueue.update, Function.update_apply, Finset.card_insert_of_notMem hnew]
  · grind
  · grind
  · grind
  · bv_omega
  · bv_omega

theorem PeerblkInv.event {event : PeerblkEvent} (hopen : NoFailedOpen queue event) :
    ∃ opened, PeerblkInv (peerblkEvent queue event) opened := by
  cases event with
  | step ok =>
    simp only [peerblkEvent, peerblkStep]
    split
    · exact ⟨opened, h⟩
    next hroom =>
    split
    · exact ⟨opened, h⟩
    next b list hlist =>
    split
    · exact ⟨_, h.opens (BitVec.not_le.1 hroom) hlist⟩
    next hok =>
    rw [Bool.eq_false_of_not_eq_true hok] at hopen
    exact absurd (hopen rfl) (by grind)
  | expired b opens =>
    simp only [peerblkEvent]
    split_ifs
    exacts [⟨_, h.expired b opens⟩, ⟨opened, h⟩]
  | done b ok =>
    simp only [peerblkEvent, peerblkDone]
    split_ifs
    exacts [⟨_, h.close b⟩, ⟨_, (h.reset b).1⟩, ⟨opened, h⟩]
  | close b =>
    simp only [peerblkEvent]
    split_ifs
    exacts [⟨_, h.close b⟩, ⟨opened, h⟩]

/-- **A connection that cannot be opened** is counted as one that is closed. -/
theorem PeerblkInv.miscounted {list : List ℕ} (hlist : queue.list = b :: list) :
    ¬ OpensCounted (peerblkClose { queue with list := list } b) := by
  rintro ⟨opened', hopened', hcount', -⟩
  have hfirst : b ∈ queue.list := by
    rw [hlist]
    exact mem_cons_self
  have hqueue : (queue.blocks b).queue = true := (h.queued b).2 (.inl hfirst)
  have hraw : (queue.blocks b).raw ≠ true := fun hraw => h.apart b hfirst ((h.raw b).1 hraw)
  have hunlisted : b ∉ list := (nodup_cons.1 (hlist ▸ h.nodup)).1
  simp only [peerblkClose, peerblkReset, peerblkDequeue, PeerdistBlockQueue.update,
    Function.update_self, Function.update_idem, hqueue, if_true, hunlisted, not_false_eq_true]
    at hopened' hcount'
  have hsame : opened' = opened := by
    ext b'
    rw [← hopened', ← h.raw, Function.update_apply]
    grind
  have hcount := h.count
  rw [hsame] at hcount'
  bv_omega

theorem noFailedOpen_of_counted {event : PeerblkEvent}
    (hcounted : OpensCounted (peerblkEvent queue event)) : NoFailedOpen queue event := by
  rintro rfl
  by_contra! hfails
  obtain ⟨b, list, hlist⟩ := exists_cons_of_ne_nil hfails.2
  simp only [peerblkEvent, peerblkStep, hlist] at hcounted
  rw [if_neg hfails.1] at hcounted
  exact h.miscounted hlist hcounted

end

/-- **The count of open downloads.**  It is right throughout a run just if no connection is tried
that cannot be opened. -/
theorem peerblk_queue_counted (max : BitVec 32) (events : List PeerblkEvent) :
    (∀ past, past <+: events → OpensCounted (run peerblkEvent { max := max } past)) ↔
      Meets peerblkEvent NoFailedOpen { max := max } events := by
  have hstart : PeerblkInv { max := max } ∅ :=
    ⟨nodup_nil, forall_mem_nil _, fun _ => by simp, fun _ => by simp, rfl, Nat.zero_le _⟩
  exact meets_iff_forall
    (fun queue (⟨opened, h⟩ : ∃ opened, PeerblkInv queue opened) =>
      ⟨opened, h.raw, h.count, h.max⟩)
    (fun _ _ ⟨_, h⟩ => h.event) (fun _ _ ⟨_, h⟩ => noFailedOpen_of_counted h) ⟨∅, hstart⟩ events

/-- The origin server cannot be reached for one block: the count becomes 2³² - 1. -/
theorem peerblk_queue_miscounted :
    ¬ OpensCounted (run peerblkEvent peerblkRawQueue [.expired 0 [], .step false]) := by
  rintro ⟨opened, -, -, hmax⟩
  exact absurd hmax (by decide)

end Ipxe.Analysis
