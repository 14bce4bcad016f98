import MemoryController.Bench
import MemoryController.Pairing

/-!
What the assertion and the scoreboard accept together, over the traces of any DUT. The
assertion only asks for the completions that are due; a completion that is not due pops
the queue early, or is swallowed when the queue is empty.
-/

set_option autoImplicit false

namespace MemoryController
open Edges SequentialMemory

structure InterfaceTrace where
  rst : Nat → Bool
  cbs : Nat → MonitorCb
  rst_zero : rst 0 = true
  valid_zero : (cbs 0).valid = false
  rst_low : ∀ k, 1 ≤ k → rst k = false

/-- The checks raise nothing on the first `n` edges. -/
structure Accepted (tr : InterfaceTrace) (n : Nat) : Prop where
  assertion : ∀ j, j+2 < n → validImpliesReadyFails tr.rst (valid tr.cbs) (ready tr.cbs) j = false
  noReadFail : (envAt tr.cbs n).scoreboard.readFails = 0

/-- The latest data written before edge `j` to the address presented at edge `j`. -/
def latestData (cbs : Nat → MonitorCb) (j : Nat) : Word :=
  (lastWrite (requests cbs j) (cbs j).addr).getD 0

/-- A completion without a request two edges before. -/
def stray (cbs : Nat → MonitorCb) (k : Nat) : Bool :=
  ready cbs k && !delay 2 (valid cbs) k

/-- No stray completion meets a request of its own edge or of the edge before. -/
def StrayIdle (cbs : Nat → MonitorCb) (n : Nat) : Prop :=
  ∀ k, k < n → stray cbs k = true → valid cbs k = false ∧ delay 1 (valid cbs) k = false

structure Conforms (cbs : Nat → MonitorCb) (n : Nat) : Prop where
  latency : ∀ k, 1 ≤ k → k < n → (ready cbs k = true ↔ 2 ≤ k ∧ valid cbs (k-2) = true)
  data : ∀ j, j+2 < n → valid cbs j = true → (cbs j).write = false →
    (cbs (j+2)).rdata = latestData cbs j

theorem ready_of_valid {tr : InterfaceTrace} {n : Nat} (h : Accepted tr n) (j : Nat)
    (hj : j+2 < n) (hv : valid tr.cbs j = true) : ready tr.cbs (j+2) = true := by
  have ha := h.assertion j hj
  have h0 : j ≠ 0 := by
    rintro rfl
    rw [valid,tr.valid_zero] at hv
    cases hv
  simpa [validImpliesReadyFails,hv,tr.rst_low j (by omega),tr.rst_low (j+1) (by omega),
    tr.rst_low (j+2) (by omega)] using ha

theorem popped_in_time {tr : InterfaceTrace} {n : Nat} (h : Accepted tr n) (j : Nat)
    (hj : j+2 < n) (hv : valid tr.cbs j = true) :
    ∃ p, j ≤ p ∧ p ≤ j+2 ∧ Fifo.popped (valid tr.cbs) (ready tr.cbs) p = some j := by
  have hs := Fifo.served_of_delay (n := n) (d := 2) (ready_of_valid h) (j+3) hj
  have hd : j+3-2 = j+1 := by omega
  rw [hd,edges_succ_of_high hv,List.length_append,List.length_singleton] at hs
  obtain ⟨p,hp,ho⟩ := Fifo.popped_of_served (show j < j+3 by omega) hv hs
  exact ⟨p,(Fifo.push_of_popped ho).1,by omega,ho⟩

theorem mismatches_eq_zero {rs : List (Request Addr Word)} {trs : List Transaction}
    (h : mismatches rs trs = 0) {i : Nat} {tr : Transaction} (ht : trs[i]? = some tr) :
    mismatch (rs.take i) tr = false := by
  have hn := List.filter_eq_nil_iff.mp (List.eq_nil_of_length_eq_zero h) i
    (List.mem_range.mpr (List.getElem?_eq_some_iff.mp ht).1)
  simpa [ht] using hn

theorem checked_read {tr : InterfaceTrace} {n : Nat} (h : Accepted tr n) {j p : Nat}
    (hp : p < n) (ho : Fifo.popped (valid tr.cbs) (ready tr.cbs) p = some j)
    (hw : (tr.cbs j).write = false) : (tr.cbs p).rdata = latestData tr.cbs j := by
  have hm := h.noReadFail
  rw [readFails_eq] at hm
  obtain ⟨i,hi⟩ := List.mem_iff_getElem?.mp (Fifo.mem_log.mpr ⟨hp,ho⟩)
  have hx := Fifo.log_getElem? hi
  have hd : (monitorAt tr.cbs n).published[i]? = some (delivered (tr.cbs j) (tr.cbs p)) := by
    rw [published_eq,matching,List.getElem?_map,hi]
    rfl
  have hj := Fifo.push_of_popped ho
  have ht : (requests tr.cbs n).take i = requests tr.cbs j := by
    obtain ⟨t,ht⟩ := edges_initial (valid tr.cbs) (show j ≤ n by omega)
    rw [requests,requests,← ht,List.map_append,List.take_left' (by simp [hx])]
  have hc := mismatches_eq_zero hm hd
  rw [ht] at hc
  simpa [mismatch,delivered,hw,latestData] using hc

/-- If requests are only popped on time, a stray completion finds an empty queue. -/
theorem strayIdle_of_on_time {cbs : Nat → MonitorCb} {n : Nat}
    (h : ∀ p j, p < n → Fifo.popped (valid cbs) (ready cbs) p = some j → p = j+2) :
    StrayIdle cbs n := by
  intro k hk hs
  simp only [stray,Bool.and_eq_true,Bool.not_eq_true'] at hs
  have hn : Fifo.popped (valid cbs) (ready cbs) k = none := by
    cases ho : Fifo.popped (valid cbs) (ready cbs) k with
    | none => rfl
    | some j =>
      rw [h k j hk ho,delay_add,(Fifo.push_of_popped ho).2] at hs
      cases hs.2
  have hq : Fifo.offered (valid cbs) (ready cbs) k = [] := by
    simpa [Fifo.popped,hs.1] using hn
  have hout : ∀ j, j ≤ k → valid cbs j = true → j+2 < k := by
    intro j hj hv
    obtain ⟨p,hp,ho⟩ := Fifo.popped_of_drained hq hj hv
    have he := h p j (by omega) ho
    omega
  constructor
  · rw [← Bool.not_eq_true]
    intro hv
    have hl := hout k (Nat.le_refl k) hv
    omega
  · rw [← Bool.not_eq_true]
    intro hv
    simp only [delay,Bool.and_eq_true,decide_eq_true_eq] at hv
    have hl := hout (k-1) (Nat.sub_le k 1) hv.2
    omega

theorem fires_of_strayIdle {tr : InterfaceTrace} {n : Nat} (h : Accepted tr n)
    (hs : StrayIdle tr.cbs n) : ∀ k, k < n →
      Fifo.fires (valid tr.cbs) (ready tr.cbs) k = delay 2 (valid tr.cbs) k := by
  apply Fifo.fires_eq
  · intro k hk he
    simp only [delay,Bool.and_eq_true,decide_eq_true_eq] at he
    have hr := ready_of_valid h (k-2) (by omega) he.2
    rwa [Nat.sub_add_cancel he.1] at hr
  · intro k hk he
    simp only [delay,Bool.and_eq_true,decide_eq_true_eq] at he
    have hm := edges_length_mono (valid tr.cbs) (show k-2+1 ≤ k+1 by omega)
    rw [edges_succ_of_high he.2,List.length_append,List.length_singleton] at hm
    rw [edges_delay,List.length_map]
    omega
  · intro k hk hr he
    obtain ⟨hv,hv'⟩ := hs k hk (by simp [stray,hr,he])
    -- no request in the last two edges, so nothing younger than two edges is queued
    have hlow : ∀ j, k-2 ≤ j → j < k → valid tr.cbs j = false := by
      intro j hj hjk
      by_cases h1 : j+1 = k
      · rw [← h1,delay_add] at hv'
        exact hv'
      · have h2 : j+2 = k := by omega
        rw [← h2,delay_add] at he
        exact he
    rw [edges_delay,List.length_map,edges_succ_of_low hv,
      edges_eq_of_low (Nat.sub_le k 2) hlow]

theorem on_time_of_strayIdle {tr : InterfaceTrace} {n : Nat} (h : Accepted tr n)
    (hs : StrayIdle tr.cbs n) (p j : Nat) (hp : p < n)
    (ho : Fifo.popped (valid tr.cbs) (ready tr.cbs) p = some j) : p = j+2 := by
  have hm := Fifo.mem_log.mpr ⟨hp,ho⟩
  rw [Fifo.log_of_delay (fires_of_strayIdle h hs) (edges_initial _ (Nat.sub_le n 2))] at hm
  obtain ⟨i,_,hi⟩ := List.mem_map.mp hm
  simp only [Prod.mk.injEq] at hi
  omega

theorem accepted_trace (tr : InterfaceTrace) (n : Nat) (h : Accepted tr n) :
    (∀ j, j+2 < n → valid tr.cbs j = true → ready tr.cbs (j+2) = true) ∧
    (∀ j, j+2 < n → valid tr.cbs j = true → ∃ p, j ≤ p ∧ p ≤ j+2 ∧
      ready tr.cbs p = true ∧ Fifo.popped (valid tr.cbs) (ready tr.cbs) p = some j ∧
      ((tr.cbs j).write = false → (tr.cbs p).rdata = latestData tr.cbs j)) ∧
    ((∀ p j, p < n → Fifo.popped (valid tr.cbs) (ready tr.cbs) p = some j → p = j+2) ↔
      StrayIdle tr.cbs n) ∧
    (StrayIdle tr.cbs n → ∀ j, j+2 < n → valid tr.cbs j = true → (tr.cbs j).write = false →
      (tr.cbs (j+2)).rdata = latestData tr.cbs j) := by
  refine ⟨ready_of_valid h,?_,⟨strayIdle_of_on_time,on_time_of_strayIdle h⟩,?_⟩
  · intro j hj hv
    obtain ⟨p,hjp,hp,ho⟩ := popped_in_time h j hj hv
    refine ⟨p,hjp,hp,?_,ho,checked_read h (by omega) ho⟩
    by_contra hr
    simp [Fifo.popped,hr] at ho
  · intro hs j hj hv hw
    obtain ⟨p,_,hp,ho⟩ := popped_in_time h j hj hv
    rw [← on_time_of_strayIdle h hs p j (by omega) ho]
    exact checked_read h (by omega) ho hw

/-- A read completed at its own edge, and garbage on `rdata` two edges later. -/
def earlyReady : InterfaceTrace where
  rst k := k == 0
  cbs
    | 1 => ⟨false,true,0,.x,0,true⟩
    | 3 => ⟨false,false,0,.x,.known 5,true⟩
    | _ => ⟨false,false,0,.x,0,false⟩
  rst_zero := rfl
  valid_zero := rfl
  rst_low := by intro k hk; simp; omega

theorem earlyReady_accepted : Accepted earlyReady 4 where
  assertion := by
    intro j hj
    match j with
    | 0 => decide
    | 1 => decide
    | j+2 => omega
  noReadFail := by decide

theorem earlyReady_read_popped : ∃ p, 1 ≤ p ∧ p ≤ 3 ∧ ready earlyReady.cbs p = true ∧
    (earlyReady.cbs p).rdata = latestData earlyReady.cbs 1 := by
  obtain ⟨p,hl,hu,hr,_,hd⟩ :=
    (accepted_trace earlyReady 4 earlyReady_accepted).2.1 1 (by decide) (by decide)
  exact ⟨p,hl,hu,hr,hd (by decide)⟩

theorem earlyReady_not_conforming : Accepted earlyReady 4 ∧
    (ready earlyReady.cbs 1 = true ∧ ¬ (2 ≤ 1 ∧ valid earlyReady.cbs (1-2) = true)) ∧
    (valid earlyReady.cbs 1 = true ∧ (earlyReady.cbs 1).write = false ∧
      (earlyReady.cbs 3).rdata ≠ latestData earlyReady.cbs 1) ∧
    ¬ Conforms earlyReady.cbs 4 := by
  refine ⟨earlyReady_accepted,by decide,by decide,fun h => ?_⟩
  have hr := (h.latency 1 (by decide) (by decide)).mp (by decide)
  exact absurd hr (by decide)

end MemoryController
