import MemoryController.Bench
import MemoryController.Protocol

/-!
How the monitor pairs requests with completions: on any in-order interface, and on the
DUT under any resets.
-/

set_option autoImplicit false

namespace MemoryController
open Edges SequentialMemory

def requests (cbs : Nat → MonitorCb) (n : Nat) : List (Request Addr Word) :=
  (edges (valid cbs) n).map (fun j => (cbs j).request)

theorem requests_split (cbs : Nat → MonitorCb) (n : Nat) :
    (monitorAt cbs n).published.map Transaction.request ++
      (monitorAt cbs n).inflightQ.map Transaction.request = requests cbs n := by
  rw [requests,← Fifo.conservation (valid cbs) (ready cbs) n,List.map_append,published_eq,
    inflightQ_eq,List.map_map,List.map_map,List.map_map]
  simp [matching,Function.comp_def]

theorem published_requests (cbs : Nat → MonitorCb) (n : Nat) :
    (monitorAt cbs n).published.map Transaction.request <+: requests cbs n :=
  ⟨_,requests_split cbs n⟩

theorem readFails_eq (cbs : Nat → MonitorCb) (n : Nat) :
    (envAt cbs n).scoreboard.readFails =
      mismatches (requests cbs n) (monitorAt cbs n).published := by
  rw [env_scoreboard,readFails_writeAll]
  exact (mismatches_extend (published_requests cbs n) (by simp)).symm

theorem published_of_covered {cbs : Nat → MonitorCb} {n : Nat}
    (h : ∀ k, k < n → (edges (ready cbs) (k+1)).length ≤ (edges (valid cbs) (k+1)).length) :
    (monitorAt cbs n).published = List.zipWith (fun j k => delivered (cbs j) (cbs k))
      (edges (valid cbs) n) (edges (ready cbs) n) := by
  rw [published_zipWith,edges_congr (Fifo.fires_of_covered h)]

theorem length_of_covered {cbs : Nat → MonitorCb} {n : Nat}
    (h : ∀ k, k < n → (edges (ready cbs) (k+1)).length ≤ (edges (valid cbs) (k+1)).length) :
    (monitorAt cbs n).published.length = (edges (ready cbs) n).length := by
  have hn : (edges (ready cbs) n).length ≤ (edges (valid cbs) n).length := by
    cases n with
    | zero => simp
    | succ n => exact h n (Nat.lt_succ_self n)
  rw [published_of_covered h,List.length_zipWith,Nat.min_eq_right hn]

/-- On an interface where completions never outrun requests the two checkers are exact. -/
theorem checker_exact (cbs : Nat → MonitorCb) (n : Nat)
    (h : ∀ k, k < n → (edges (ready cbs) (k+1)).length ≤ (edges (valid cbs) (k+1)).length) :
    let published := (envAt cbs n).monitor.published
    published.length = (edges (ready cbs) n).length ∧
    (∀ i j k : Nat, (edges (valid cbs) n)[i]? = some j → (edges (ready cbs) n)[i]? = some k →
      published[i]? = some (delivered (cbs j) (cbs k))) ∧
    (envAt cbs n).scoreboard.readFails =
      ((List.range published.length).filter (fun i => (published[i]?).any (fun tr =>
        !tr.write &&
          tr.rdata != (lastWrite ((requests cbs n).take i) tr.addr).getD 0))).length := by
  simp only [env_monitor]
  refine ⟨length_of_covered h,?_,readFails_eq cbs n⟩
  intro i j k hj hk
  rw [published_of_covered h,List.getElem?_zipWith,hj,hk]

def corruptedRead : Nat → MonitorCb
  | 0 => ⟨true,true,3,.known 1,0,false⟩
  | 1 => ⟨false,true,3,.x,0,true⟩
  | 2 => ⟨false,false,0,.x,.known 2,true⟩
  | _ => ⟨false,false,0,.x,0,false⟩

theorem corruptedRead_reported : (envAt corruptedRead 3).scoreboard.readFails = 1 :=
  (checker_exact corruptedRead 3 (by decide)).2.2.trans (by decide)

theorem valid_samples (s : Regs) (ins : Nat → Pins) : valid (samples s ins) = presented ins := rfl

theorem ready_samples (s : Regs) (ins : Nat → Pins) : ready (samples s ins) = readyAt s ins := rfl

theorem requests_samples (s : Regs) (ins : Nat → Pins) (n : Nat) :
    requests (samples s ins) n = (edges (presented ins) n).map (requestAt ins) := rfl

theorem committed_count_le (ins : Nat → Pins) (n : Nat) :
    (edges (committed ins) n).length ≤ (edges (presented ins) n).length :=
  edges_length_le_of_imp (fun _ _ h => presented_of_committed h)

/-- The pops that find an entry are the completions of the DUT. -/
theorem fires_samples (s : Regs) (ins : QuietTrace) (k : Nat) :
    Fifo.fires (valid (samples s ins.pins)) (ready (samples s ins.pins)) k =
      delay 2 (committed ins.pins) k := by
  have hr : ∀ k, k ≠ 0 → readyAt s ins.pins k = delay 2 (committed ins.pins) k :=
    ready_eq_delay s ins.pins ins.rst_zero
  rw [valid_samples,ready_samples]
  apply Fifo.fires_eq (n := k+1) (e := delay 2 (committed ins.pins))
  · intro j _ he
    rw [hr j (by rintro rfl; exact absurd he (by simp [delay])),he]
  · intro j _ he
    simp only [delay,Bool.and_eq_true,decide_eq_true_eq] at he
    have hc := committed_count_le ins.pins (j-2+1)
    have hm := edges_length_mono (presented ins.pins) (show j-2+1 ≤ j+1 by omega)
    rw [edges_succ_of_high he.2,List.length_append,List.length_singleton] at hc
    rw [edges_delay,List.length_map]
    omega
  · intro j _ hp he
    have hj : j = 0 := by
      by_contra hne
      rw [hr j hne,he] at hp
      cases hp
    subst hj
    simp [edges_succ,presented,ins.valid_zero]
  · exact Nat.lt_succ_self k

theorem fires_count (s : Regs) (ins : QuietTrace) (n : Nat) :
    (edges (Fifo.fires (valid (samples s ins.pins)) (ready (samples s ins.pins))) n).length =
      (edges (committed ins.pins) (n-2)).length := by
  rw [edges_congr (fun k _ => fires_samples s ins k),edges_delay,List.length_map]

/-- `inflight_q` holds the requests observed so far without as many of the oldest as the
DUT has completed. -/
theorem inflightQ_samples (s : Regs) (ins : QuietTrace) (n : Nat) :
    (benchAt s ins.pins n).env.monitor.inflightQ =
      ((edges (presented ins.pins) n).map (fun j => observed (samples s ins.pins j))).drop
        (edges (committed ins.pins) (n-2)).length := by
  rw [bench_env,env_monitor,inflightQ_eq,matching,Fifo.waiting_eq_drop,fires_count,
    List.map_drop,valid_samples]

/-- Presented, and reset at the same edge or at the next one. -/
def lostAt (ins : Nat → Pins) (j : Nat) : Bool :=
  presented ins j && (rstAt ins j || rstAt ins (j+1))

/-- The requests lost to a reset at an edge up to `k`. -/
def lost (ins : Nat → Pins) (k : Nat) : List Nat :=
  (List.range (k+1)).filter (fun j => presented ins j &&
    (rstAt ins j || (decide (j+1 ≤ k) && rstAt ins (j+1))))

theorem lost_eq (ins : Nat → Pins) (k : Nat) : lost ins k =
    edges (lostAt ins) k ++ if presented ins k && rstAt ins k then [k] else [] := by
  have hf : (List.range k).filter (fun j => presented ins j &&
      (rstAt ins j || (decide (j+1 ≤ k) && rstAt ins (j+1)))) = edges (lostAt ins) k := by
    apply List.filter_congr
    intro j hj
    have hle : j+1 ≤ k := List.mem_range.mp hj
    simp [lostAt,hle]
  have hk : decide (k+1 ≤ k) = false := decide_eq_false (by omega)
  rw [lost,List.range_succ,List.filter_append,hf]
  simp only [List.filter_cons,List.filter_nil,hk,Bool.false_and,Bool.or_false]

theorem lost_mono (ins : Nat → Pins) (k : Nat) :
    (lost ins k).length ≤ (lost ins (k+1)).length := by
  rw [lost_eq,lost_eq,edges_succ]
  cases hp : presented ins k <;> cases hr : rstAt ins k <;> simp [lostAt,hp,hr]

theorem presented_count (ins : Nat → Pins) (n : Nat) : (edges (presented ins) n).length =
    (edges (committed ins) n).length + (edges (lostAt ins) n).length := by
  induction n with
  | zero => rfl
  | succ n ih =>
    cases hv : (ins n).valid <;> cases hr : (ins n).rst <;> cases hr' : (ins (n+1)).rst <;>
      simp [edges_succ,presented,committed,accepted,lostAt,rstAt,hv,hr,hr',ih] <;> omega

theorem presented_balance (s : Regs) (ins : QuietTrace) (k : Nat) :
    (edges (presented ins.pins) (k+1)).length = (edges (committed ins.pins) (k-1)).length +
      (outstanding s ins.pins k).length + (lost ins.pins k).length := by
  cases k with
  | zero => simp [outstanding_zero,lost_eq,edges_succ,presented,accepted,ins.valid_zero]
  | succ k =>
    have hp := presented_count ins.pins (k+1)
    rw [edges_succ (presented ins.pins) (k+1),List.length_append,hp,lost_eq,outstanding_succ,
      edges_succ (committed ins.pins)]
    cases hv : (ins.pins (k+1)).valid <;> cases hr : (ins.pins (k+1)).rst <;>
      cases hc : committed ins.pins k <;>
      simp [presented,accepted,rstAt,hv,hr] <;> omega

theorem inflightQ_length (s : Regs) (ins : QuietTrace) (k : Nat) :
    (benchAt s ins.pins (k+1)).env.monitor.inflightQ.length +
      (edges (committed ins.pins) (k-1)).length = (edges (presented ins.pins) (k+1)).length := by
  have hb := presented_balance s ins k
  rw [inflightQ_samples,List.length_drop,List.length_map]
  have hk : k+1-2 = k-1 := by omega
  rw [hk]
  omega

/-- The queue exceeds what is truly outstanding by what the resets have lost. -/
theorem inflightQ_excess (s : Regs) (ins : QuietTrace) (k : Nat) :
    (benchAt s ins.pins (k+1)).env.monitor.inflightQ.length =
      (outstanding s ins.pins k).length + (lost ins.pins k).length := by
  have hl := inflightQ_length s ins k
  have hb := presented_balance s ins k
  omega

theorem popped_of_ready (s : Regs) (ins : QuietTrace) {k : Nat} (hk : k ≠ 0)
    (hr : readyAt s ins.pins k = true) :
    monitorCapture (benchAt s ins.pins k).env.monitor.inflightQ (samples s ins.pins k) ≠ [] := by
  have hf := fires_samples s ins k
  rw [readyAt,ready_eq_delay s ins.pins ins.rst_zero k hk] at hr
  rw [hr] at hf
  obtain ⟨o,rest,ho,_⟩ := Fifo.after_succ_of_fires hf
  rw [bench_env,env_monitor,inflightQ_eq,monitorCapture_map]
  change (Fifo.offered _ _ k).map _ ≠ []
  rw [ho]
  exact List.cons_ne_nil _ _

theorem committed_of_no_reset {ins : QuietTrace} {k : Nat}
    (h : ∀ e, 1 ≤ e → e ≤ k → (ins.pins e).rst = false) (j : Nat) (hj : j+1 ≤ k) :
    committed ins.pins j = presented ins.pins j := by
  by_cases h0 : j = 0
  · subst h0
    simp [committed,accepted,presented,ins.valid_zero]
  · simp [committed,accepted,presented,h j (by omega) (by omega),h (j+1) (by omega) hj]

theorem inflightQ_of_no_reset (s : Regs) (ins : QuietTrace) (k : Nat)
    (h : ∀ e, 1 ≤ e → e ≤ k+1 → (ins.pins e).rst = false) :
    (benchAt s ins.pins (k+2)).env.monitor.inflightQ =
      ([k,k+1].filter (presented ins.pins)).map (fun j => observed (samples s ins.pins j)) := by
  have hc : edges (committed ins.pins) k = edges (presented ins.pins) k :=
    edges_congr (fun j hj => committed_of_no_reset h j (by omega))
  rw [inflightQ_samples,Nat.add_sub_cancel,hc,edges_succ,edges_succ,List.append_assoc,
    List.map_append,List.drop_left' (by simp)]
  cases hp : presented ins.pins k <;> cases hp' : presented ins.pins (k+1) <;>
    simp [hp,hp']

theorem inflightQ_le_two (s : Regs) (ins : QuietTrace) (n : Nat)
    (h : ∀ e, 1 ≤ e → e < n → (ins.pins e).rst = false) :
    (benchAt s ins.pins n).env.monitor.inflightQ.length ≤ 2 := by
  match n with
  | 0 => exact Nat.zero_le 2
  | 1 => simp [inflightQ_samples,edges_succ,presented,ins.valid_zero]
  | k+2 =>
    rw [inflightQ_of_no_reset s ins k (fun e he hk => h e he (by omega)),List.length_map]
    exact List.length_filter_le _ _

theorem inflight_contents (s : Regs) (ins : QuietTrace) (k : Nat) (hk : 1 ≤ k) :
    let q := (benchAt s ins.pins (k+1)).env.monitor.inflightQ
    q = ((edges (presented ins.pins) (k+1)).map (fun j => observed (samples s ins.pins j))).drop
      (edges (pulse s ins.pins) (k+1)).length ∧
    q.length + (edges (committed ins.pins) (k-1)).length =
      (edges (presented ins.pins) (k+1)).length ∧
    (readyAt s ins.pins k = true → monitorCapture
      (benchAt s ins.pins k).env.monitor.inflightQ (samples s ins.pins k) ≠ []) ∧
    ((∀ e, 1 ≤ e → e ≤ k → (ins.pins e).rst = false) → q.length ≤ 2 ∧
      q = ([k-1,k].filter (presented ins.pins)).map (fun j => observed (samples s ins.pins j))) ∧
    q.length = (outstanding s ins.pins k).length + (lost ins.pins k).length ∧
    (lost ins.pins k).length ≤ (lost ins.pins (k+1)).length := by
  obtain ⟨m,rfl⟩ := Nat.exists_eq_add_of_le' hk
  refine ⟨?_,inflightQ_length s ins (m+1),popped_of_ready s ins (by omega),?_,
    inflightQ_excess s ins (m+1),lost_mono ins.pins (m+1)⟩
  · rw [inflightQ_samples,pulse_count s ins.toResetTrace]
  · intro h
    have hq := inflightQ_of_no_reset s ins m h
    exact ⟨inflightQ_le_two s ins (m+2) (fun e he hm => h e he (by omega)),hq⟩

theorem killedWrite_queued :
    (benchAt zeroPowerUp.toRegs killedWrite.pins 5).env.monitor.inflightQ.length = 3 :=
  (inflight_contents zeroPowerUp.toRegs killedWrite 4 (by decide)).2.2.2.2.1.trans (by decide)

end MemoryController
