import MemoryController.Library.Edges

/-!
First-in first-out matching of push edges with pop edges. At one edge the push comes
before the pop, and a pop of an empty queue does nothing.
-/

set_option autoImplicit false

namespace Fifo
open Edges

/-- The push edges still queued, and the pairs of a push edge with the edge of its pop. -/
structure Matching where
  waiting : List Nat
  log : List (Nat × Nat)
  deriving DecidableEq, Repr

def enqueue (push : Bool) (k : Nat) (waiting : List Nat) : List Nat :=
  if push then waiting ++ [k] else waiting

def dequeue (pop : Bool) (k : Nat) (m : Matching) : Matching :=
  match pop, m.waiting with
  | true, o :: rest => ⟨rest,m.log ++ [(o,k)]⟩
  | _, _ => m

def after (push pop : Nat → Bool) : Nat → Matching
  | 0 => ⟨[],[]⟩
  | k+1 => dequeue (pop k) k
      ⟨enqueue (push k) k (after push pop k).waiting,(after push pop k).log⟩

def offered (push pop : Nat → Bool) (k : Nat) : List Nat :=
  enqueue (push k) k (after push pop k).waiting

def popped (push pop : Nat → Bool) (k : Nat) : Option Nat :=
  if pop k then (offered push pop k).head? else none

def fires (push pop : Nat → Bool) (k : Nat) : Bool :=
  pop k && !(offered push pop k).isEmpty

theorem waiting_succ (push pop : Nat → Bool) (k : Nat) : (after push pop (k+1)).waiting =
    if pop k then (offered push pop k).tail else offered push pop k := by
  rw [after,offered]
  cases pop k <;> cases enqueue (push k) k (after push pop k).waiting <;> simp [dequeue]

theorem append_enqueue (push : Bool) (k : Nat) (out waiting : List Nat) :
    out ++ enqueue push k waiting = (out ++ waiting) ++ if push then [k] else [] := by
  cases push <;> simp [enqueue]

theorem after_succ_of_fires {push pop : Nat → Bool} {k : Nat}
    (h : fires push pop k = true) : ∃ o rest, offered push pop k = o :: rest ∧
      after push pop (k+1) = ⟨rest,(after push pop k).log ++ [(o,k)]⟩ := by
  cases ho : offered push pop k with
  | nil => simp [fires,ho] at h
  | cons o rest =>
    have hp : pop k = true := by
      simp only [fires,Bool.and_eq_true] at h
      exact h.1
    have hq : enqueue (push k) k (after push pop k).waiting = o :: rest := ho
    exact ⟨o,rest,rfl,by simp [after,dequeue,hp,hq]⟩

theorem after_succ_of_idle {push pop : Nat → Bool} {k : Nat}
    (h : fires push pop k = false) :
    after push pop (k+1) = ⟨offered push pop k,(after push pop k).log⟩ := by
  cases ho : offered push pop k with
  | nil =>
    have hq : enqueue (push k) k (after push pop k).waiting = [] := ho
    simp [after,dequeue,hq]
  | cons o rest =>
    have hp : pop k = false := by simpa [fires,ho] using h
    have hq : enqueue (push k) k (after push pop k).waiting = o :: rest := ho
    simp [after,dequeue,hp,hq]

theorem popped_isSome (push pop : Nat → Bool) (k : Nat) :
    (popped push pop k).isSome = fires push pop k := by
  cases hp : pop k <;> cases ho : offered push pop k <;> simp [popped,fires,hp,ho]

theorem log_succ (push pop : Nat → Bool) (k : Nat) : (after push pop (k+1)).log =
    (after push pop k).log ++ ((popped push pop k).map (fun o => (o,k))).toList := by
  cases hf : fires push pop k with
  | true =>
    obtain ⟨o,rest,ho,ha⟩ := after_succ_of_fires hf
    have hp : pop k = true := by
      simp only [fires,Bool.and_eq_true] at hf
      exact hf.1
    simp [ha,popped,hp,ho]
  | false =>
    have hn : popped push pop k = none := by
      rw [← Option.not_isSome_iff_eq_none,popped_isSome,hf]
      exact Bool.false_ne_true
    simp [after_succ_of_idle hf,hn]

/-- Nothing is lost, duplicated or reordered: popped entries followed by waiting ones are
exactly the pushed ones. -/
theorem conservation (push pop : Nat → Bool) (n : Nat) :
    (after push pop n).log.map Prod.fst ++ (after push pop n).waiting = edges push n := by
  induction n with
  | zero => rfl
  | succ n ih =>
    have ho : (after push pop n).log.map Prod.fst ++ offered push pop n =
        edges push (n+1) := by rw [edges_succ,← ih,offered,append_enqueue]
    cases hf : fires push pop n with
    | true =>
      obtain ⟨o,rest,hq,hs⟩ := after_succ_of_fires hf
      rw [hs,← ho,hq]
      simp
    | false => rw [after_succ_of_idle hf,← ho]

theorem conservation_offered (push pop : Nat → Bool) (n : Nat) :
    (after push pop n).log.map Prod.fst ++ offered push pop n = edges push (n+1) := by
  rw [edges_succ,← conservation push pop n,offered,append_enqueue]

theorem offered_length (push pop : Nat → Bool) (n : Nat) :
    (after push pop n).log.length + (offered push pop n).length =
      (edges push (n+1)).length := by
  rw [← conservation_offered push pop n,List.length_append,List.length_map]

theorem log_pops (push pop : Nat → Bool) (n : Nat) :
    (after push pop n).log.map Prod.snd = edges (fires push pop) n := by
  induction n with
  | zero => rfl
  | succ n ih =>
    cases hf : fires push pop n with
    | true =>
      obtain ⟨o,rest,_,hs⟩ := after_succ_of_fires hf
      rw [hs,edges_succ_of_high hf,← ih]
      simp
    | false => rw [after_succ_of_idle hf,edges_succ_of_low hf,ih]

theorem log_length (push pop : Nat → Bool) (n : Nat) :
    (after push pop n).log.length = (edges (fires push pop) n).length := by
  rw [← log_pops,List.length_map]

theorem waiting_eq_drop (push pop : Nat → Bool) (n : Nat) :
    (after push pop n).waiting = (edges push n).drop (edges (fires push pop) n).length := by
  rw [← log_length,← conservation push pop n]
  simp

theorem log_eq_zip (push pop : Nat → Bool) (n : Nat) :
    (after push pop n).log = (edges push n).zip (edges (fires push pop) n) := by
  generalize hq : (after push pop n).waiting = q
  generalize hm : (after push pop n).log = log
  have hc := conservation push pop n
  rw [hq,hm] at hc
  rw [← hc,← log_pops,hm]
  have hl : (log.map Prod.fst).length = (log.map Prod.snd).length := by simp
  have hz : (log.map Prod.fst ++ q).zip (log.map Prod.snd ++ []) =
      (log.map Prod.fst).zip (log.map Prod.snd) ++ q.zip [] := List.zip_append hl
  rw [List.append_nil] at hz
  rw [hz]
  simp [List.zip_map']

/-- Which pops find an entry: `e` holds exactly of them when every edge of `e` is a pop with
more pushes than earlier edges of `e`, and every other pop has no more. -/
theorem fires_eq {push pop e : Nat → Bool} {n : Nat}
    (hpop : ∀ k, k < n → e k = true → pop k = true)
    (hfull : ∀ k, k < n → e k = true → (edges e k).length < (edges push (k+1)).length)
    (hempty : ∀ k, k < n → pop k = true → e k = false →
      (edges push (k+1)).length ≤ (edges e k).length) :
    ∀ k, k < n → fires push pop k = e k := by
  intro k
  induction k using Nat.strongRecOn with
  | ind k ih =>
    intro hk
    have he : edges (fires push pop) k = edges e k :=
      edges_congr (fun j hj => ih j hj (Nat.lt_trans hj hk))
    have hl := offered_length push pop k
    rw [log_length,he] at hl
    cases hek : e k with
    | true =>
      have hf := hfull k hk hek
      have hne : offered push pop k ≠ [] := by
        intro h
        rw [h] at hl
        simp only [List.length_nil] at hl
        omega
      simp [fires,hpop k hk hek,hne]
    | false =>
      cases hp : pop k with
      | false => simp [fires,hp]
      | true =>
        have hm := hempty k hk hp hek
        have hn : offered push pop k = [] := List.eq_nil_of_length_eq_zero (by omega)
        simp [fires,hn]

theorem fires_of_covered {push pop : Nat → Bool} {n : Nat}
    (h : ∀ k, k < n → (edges pop (k+1)).length ≤ (edges push (k+1)).length) :
    ∀ k, k < n → fires push pop k = pop k := by
  apply fires_eq
  · exact fun _ _ h => h
  · intro k hk hp
    have hc := h k hk
    rw [edges_succ_of_high hp,List.length_append,List.length_singleton] at hc
    omega
  · intro k _ hp he
    rw [hp] at he
    cases he

/-- An entry whose elders are all out is out after the next pop. -/
theorem served_step {push pop : Nat → Bool} {j k : Nat} (hj : j ≤ k) (hp : push j = true)
    (hpop : pop k = true)
    (h : (edges push j).length ≤ (after push pop k).log.length) :
    (edges push (j+1)).length ≤ (after push pop (k+1)).log.length := by
  cases hf : fires push pop k with
  | true =>
    obtain ⟨o,rest,_,ha⟩ := after_succ_of_fires hf
    rw [ha,edges_succ_of_high hp]
    simpa using h
  | false =>
    -- the pop is there, so it can only idle on a queue that has been emptied
    have hn : offered push pop k = [] := by simpa [fires,hpop] using hf
    have hl := offered_length push pop k
    have hm := edges_length_mono push (show j+1 ≤ k+1 by omega)
    rw [hn,List.length_nil,Nat.add_zero] at hl
    rw [after_succ_of_idle hf,hl]
    exact hm

/-- If every pushed edge is followed `d` edges later by a pop, all entries of age `d` are out. -/
theorem served_of_delay {push pop : Nat → Bool} {n d : Nat}
    (h : ∀ j, j+d < n → push j = true → pop (j+d) = true) (k : Nat) (hk : k ≤ n) :
    (edges push (k-d)).length ≤ (after push pop k).log.length := by
  induction k with
  | zero => simp
  | succ k ih =>
    have hi := ih (by omega)
    by_cases hd : d ≤ k
    · obtain ⟨j,rfl⟩ := Nat.exists_eq_add_of_le' hd
      rw [Nat.add_sub_cancel] at hi
      rw [Nat.add_right_comm,Nat.add_sub_cancel]
      cases hp : push j with
      | true =>
        rw [Nat.add_right_comm]
        exact served_step (Nat.le_add_right j d) hp (h j (by omega) hp) hi
      | false =>
        rw [edges_succ_of_low hp,log_length]
        rw [log_length] at hi
        exact Nat.le_trans hi (edges_length_mono _ (by omega))
    · have hz : k+1-d = 0 := by omega
      simp [hz]

theorem log_of_delay {push pop c : Nat → Bool} {n d : Nat}
    (hf : ∀ k, k < n → fires push pop k = delay d c k)
    (hc : edges c (n-d) <+: edges push n) :
    (after push pop n).log = (edges c (n-d)).map (fun j => (j,j+d)) := by
  obtain ⟨t,ht⟩ := hc
  have hz : (edges c (n-d) ++ t).zip ((edges c (n-d)).map (· + d) ++ []) =
      (edges c (n-d)).zip ((edges c (n-d)).map (· + d)) ++ t.zip [] :=
    List.zip_append (by simp)
  have hm := List.zip_map' (l := edges c (n-d)) (f := fun j => j) (g := (· + d))
  rw [List.map_id'] at hm
  rw [List.append_nil,List.zip_nil_right,List.append_nil,hm] at hz
  rw [log_eq_zip,edges_congr hf,edges_delay,← ht,hz]

theorem mem_log {push pop : Nat → Bool} {n o p : Nat} :
    (o,p) ∈ (after push pop n).log ↔ p < n ∧ popped push pop p = some o := by
  induction n with
  | zero => simp [after]
  | succ n ih =>
    rw [log_succ,List.mem_append,ih]
    constructor
    · rintro (⟨hp,ho⟩ | h)
      · exact ⟨by omega,ho⟩
      · cases hn : popped push pop n with
        | none => simp [hn] at h
        | some o' =>
          simp only [hn,Option.map_some,Option.toList_some,List.mem_singleton,
            Prod.mk.injEq] at h
          obtain ⟨rfl,rfl⟩ := h
          exact ⟨by omega,hn⟩
    · rintro ⟨hp,ho⟩
      by_cases hn : p = n
      · subst hn
        exact Or.inr (by simp [ho])
      · exact Or.inl ⟨by omega,ho⟩

theorem push_of_popped {push pop : Nat → Bool} {o k : Nat}
    (h : popped push pop k = some o) : o ≤ k ∧ push o = true := by
  have hm : (o,k) ∈ (after push pop (k+1)).log := mem_log.mpr ⟨Nat.lt_succ_self k,h⟩
  have he : o ∈ edges push (k+1) := by
    rw [← conservation push pop (k+1)]
    exact List.mem_append_left _ (List.mem_map_of_mem hm)
  have hb := mem_edges.mp he
  exact ⟨by omega,hb.2⟩

theorem log_getElem? {push pop : Nat → Bool} {n i o p : Nat}
    (h : (after push pop n).log[i]? = some (o,p)) : i = (edges push o).length := by
  have hm := mem_log.mp (List.mem_of_getElem? h)
  have hp := push_of_popped hm.2
  have hi : (edges push n)[i]? = some o := by
    rw [← conservation push pop n,List.getElem?_append_left]
    · simp [h]
    · simpa using (List.getElem?_eq_some_iff.mp h).1
  have ho : (edges push n)[(edges push o).length]? = some o := edges_getElem? hp.2 (by omega)
  have hl := (List.getElem?_eq_some_iff.mp hi).1
  exact (List.getElem?_inj hl (edges_nodup push n)).mp (hi.trans ho.symm)

theorem popped_of_served {push pop : Nat → Bool} {n j : Nat} (hj : j < n)
    (hp : push j = true) (h : (edges push j).length < (after push pop n).log.length) :
    ∃ p, p < n ∧ popped push pop p = some j := by
  obtain ⟨⟨o,p⟩,he⟩ : ∃ e, (after push pop n).log[(edges push j).length]? = some e :=
    ⟨_,List.getElem?_eq_getElem h⟩
  have hm := mem_log.mp (List.mem_of_getElem? he)
  have ho := edges_getElem? hp hj
  rw [← conservation push pop n,List.getElem?_append_left (by simpa using h),
    List.getElem?_map,he] at ho
  simp only [Option.map_some,Option.some.injEq] at ho
  subst ho
  exact ⟨p,hm⟩

theorem popped_of_drained {push pop : Nat → Bool} {j k : Nat} (ho : offered push pop k = [])
    (hj : j ≤ k) (hp : push j = true) : ∃ p, p < k ∧ popped push pop p = some j := by
  have hm : j ∈ edges push (k+1) := mem_edges.mpr ⟨Nat.lt_succ_of_le hj,hp⟩
  rw [← conservation_offered push pop k,ho,List.append_nil] at hm
  obtain ⟨⟨o,p⟩,he,rfl⟩ := List.mem_map.mp hm
  exact ⟨p,mem_log.mp he⟩

end Fifo
