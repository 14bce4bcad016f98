import MemoryController.Uvm.SequencerBase
import MemoryController.Library.Roulette

/-!
`m_choose_next_request`: the scan of the arbitration queue and the six ways to choose among
the requests it finds.
-/

set_option autoImplicit false

namespace MemoryController.Uvm

namespace UvmSequencer

variable {α : Type}

/-- A request that may be granted: it is not a lock, no lock keeps its sequence out, and
`is_relevant` holds. -/
def eligible (q : UvmSequencer α) (t : SequenceTree) (relevant : Nat → Bool)
    (r : SequenceRequest) : Bool :=
  r.request == .req && !q.isBlocked t r.sequencePtr && relevant r.sequencePtr

/-- The `while` loop at position `i`. Every turn deletes a request or moves on, so the
length of the queue bounds the turns. In FIFO mode the first eligible request ends it. -/
def scan (ss : Sequences) (relevant : Nat → Bool) :
    Nat → Nat → List Nat → UvmSequencer α → UvmSequencer α × Option Nat × List Nat
  | 0, _, avail, q => (q,none,avail)
  | turns+1, i, avail, q =>
    match q.arbSequenceQ[i]? with
    | none => (q,none,avail)
    | some r =>
      if ss.killed r.sequencePtr then
        scan ss relevant turns i avail (removeZombie ss seqreqzmb q r)
      else if q.eligible ss.toSequenceTree relevant r then
        if q.arbitration.isFifo then (q,some i,avail)
        else scan ss relevant turns (i+1) (avail ++ [i]) q
      else scan ss relevant turns (i+1) avail q

/-- The priority of the item, or of its sequence when the item has none. -/
def getSeqItemPriority (t : SequenceTree) (r : SequenceRequest) : Int32 :=
  if r.itemPriority ≠ -1 then r.itemPriority else t.priority r.sequencePtr

def illegalPriority (t : SequenceTree) (r : SequenceRequest) : Option ReportMessage :=
  if r.itemPriority ≠ -1 then
    if r.itemPriority ≤ 0 then
      some ⟨.fatal,"SEQITEMPRI","Sequence item from " ++ t.fullName r.sequencePtr ++
        " has illegal priority: " ++ toString r.itemPriority⟩
    else none
  else if t.priority r.sequencePtr < 0 then
    some ⟨.fatal,"SEQDEFPRI","Sequence " ++ t.fullName r.sequencePtr ++
      " has illegal priority: " ++ toString (t.priority r.sequencePtr)⟩
  else none

def priorityAt (q : UvmSequencer α) (t : SequenceTree) (i : Nat) : Int32 :=
  ((q.arbSequenceQ[i]?).map (getSeqItemPriority t)).getD 0

def weightedError : ReportMessage :=
  ⟨.fatal,"Sequencer","UVM Internal error in weighted arbitration code"⟩

/-- The first loop of weighted arbitration. The sum is an `int` and wraps. -/
def sumPriority (priority : Nat → Int32) (avail : List Nat) : Int32 :=
  avail.foldl (fun sum i => sum + priority i) 0

/-- `$urandom_range` down to 0, which takes its bound as unsigned and includes it. -/
def urandomRange (maxval : UInt32) (draw : Nat) : Nat := draw % (maxval.toNat+1)

/-- The second loop, with the priorities summed so far. -/
def weightedFrom (priority : Nat → Int32) (temp : Int32) : Int32 → List Nat → Option Nat
  | _, [] => none
  | sum, i :: avail =>
    if priority i + sum > temp then some i
    else weightedFrom priority temp (sum + priority i) avail

/-- One turn of the strict loop: a higher priority starts the list anew. -/
def keepHighest (priority : Nat → Int32) (highest : List Nat × Int32) (i : Nat) :
    List Nat × Int32 :=
  if priority i > highest.2 then ([i],priority i)
  else if priority i = highest.2 then (highest.1 ++ [i],highest.2)
  else highest

/-- The available sequences at the highest priority, in the order of the queue. -/
def highestSequences (priority : Nat → Int32) (avail : List Nat) : List Nat :=
  (avail.foldl (keepHighest priority) ([],0)).1

def userError (i : Nat) (state : String) : ReportMessage :=
  ⟨.fatal,"Sequencer","Error in User arbitration, sequence " ++ toString i ++
    " not available\n" ++ state⟩

def convert2string (q : UvmSequencer α) : String :=
  let name := fun (r : SequenceRequest) =>
    match r.request with
    | .req => "SEQ_TYPE_REQ"
    | .lock => "SEQ_TYPE_LOCK"
  let arb := q.arbSequenceQ.zipIdx.foldl (fun s e => s ++ " " ++ toString e.2 ++ "/" ++
    toString e.1.sequenceId ++ "/" ++ name e.1 ++ " ") "  -- arb i/id/type: "
  q.lockList.zipIdx.foldl (fun s e => s ++ " " ++ toString e.2 ++ "/" ++
    toString (q.getSqrSequenceId e.1)) (arb ++ "\n -- lock_list i/id: ")

/-- The choice among two or more available positions. `draw` stands for `$urandom_range`,
which returns any number of its range. -/
def chooseAmong (q : UvmSequencer α) (t : SequenceTree) (draw : Nat) (avail : List Nat) :
    UvmSequencer α × Option Nat :=
  let entries := avail.filterMap (fun i => q.arbSequenceQ[i]?)
  let priority := q.priorityAt t
  match q.arbitration with
  | .fifo => (q,none)
  | .weighted =>
    match entries.findSome? (illegalPriority t) with
    | some message => ({ q with reports := q.reports ++ [message] },none)
    | none =>
      let temp := Int32.ofNat (urandomRange (sumPriority priority avail - 1).toUInt32 draw)
      match weightedFrom priority temp 0 avail with
      | some i => (q,some i)
      | none => ({ q with reports := q.reports ++ [weightedError] },none)
  | .random => (q,avail[draw % avail.length]?)
  | .strictFifo =>
    match entries.findSome? (illegalPriority t) with
    | some message => ({ q with reports := q.reports ++ [message] },none)
    | none => (q,(highestSequences priority avail).head?)
  | .strictRandom =>
    match entries.findSome? (illegalPriority t) with
    | some message => ({ q with reports := q.reports ++ [message] },none)
    | none =>
      let highest := highestSequences priority avail
      (q,highest[draw % highest.length]?)
  | .user arbitration =>
    let i := arbitration avail
    if avail.contains i then (q,some i)
    else ({ q with reports := q.reports ++ [userError i q.convert2string] },none)

/-- The second look at the locks. -/
def unblocked (q : UvmSequencer α) (t : SequenceTree) (avail : List Nat) : List Nat :=
  if q.lockList.length > 0 then
    avail.filter (fun i => (q.arbSequenceQ[i]?).all (fun r => !q.isBlocked t r.sequencePtr))
  else avail

def chooseNextRequest (q : UvmSequencer α) (ss : Sequences) (relevant : Nat → Bool)
    (draw : Nat) : UvmSequencer α × Option Nat :=
  let q := q.grantQueuedLocks ss
  match scan ss relevant q.arbSequenceQ.length 0 [] q with
  | (q,some i,_) => (q,some i)
  | (q,none,avail) =>
    if q.arbitration.isFifo then (q,none)
    else if avail.length ≤ 1 then (q,avail.head?)
    else
      let avail := q.unblocked ss.toSequenceTree avail
      if avail.length ≤ 1 then (q,avail.head?)
      else q.chooseAmong ss.toSequenceTree draw avail

/-- The positions of the queue that hold an eligible request. -/
def eligibleAt (q : UvmSequencer α) (t : SequenceTree) (relevant : Nat → Bool) (i : Nat) :
    Bool :=
  (q.arbSequenceQ[i]?).any (q.eligible t relevant)

def available (q : UvmSequencer α) (t : SequenceTree) (relevant : Nat → Bool) : List Nat :=
  (List.range q.arbSequenceQ.length).filter (q.eligibleAt t relevant)

def AllAlive (q : UvmSequencer α) (ss : Sequences) : Prop :=
  ∀ r ∈ q.arbSequenceQ, ss.killed r.sequencePtr = false

section Scan

variable (ss : Sequences) (relevant : Nat → Bool)

theorem trimmed_scan (turns i : Nat) (avail : List Nat) (q : UvmSequencer α) :
    Trimmed ss.toSequenceTree (Dead ss) q (scan ss relevant turns i avail q).1 := by
  induction turns generalizing i avail q with
  | zero => exact trimmed_refl q
  | succ turns ih =>
    unfold scan
    cases q.arbSequenceQ[i]? with
    | none => exact trimmed_refl q
    | some r =>
      simp only
      split
      · rename_i hd
        exact trimmed_trans (trimmed_removeZombie seqreqzmb q hd) (ih _ _ _)
      · split
        · split
          · exact trimmed_refl q
          · exact ih _ _ _
        · exact ih _ _ _

/-- A request found at once is eligible, whatever was deleted on the way to it. -/
theorem scan_found {turns i j : Nat} {avail avail' : List Nat} {q q' : UvmSequencer α}
    (h : scan ss relevant turns i avail q = (q',some j,avail')) :
    ∃ r, q'.arbSequenceQ[j]? = some r ∧ ss.killed r.sequencePtr = false ∧
      q'.eligible ss.toSequenceTree relevant r = true := by
  induction turns generalizing i avail q with
  | zero => cases h
  | succ turns ih =>
    unfold scan at h
    cases hr : q.arbSequenceQ[i]? with
    | none =>
      rw [hr] at h
      cases h
    | some r =>
      rw [hr] at h
      simp only at h
      split at h
      · exact ih h
      · rename_i hk
        split at h
        · rename_i he
          split at h
          · cases h
            exact ⟨r,hr,Bool.eq_false_iff.mpr hk,he⟩
          · exact ih h
        · exact ih h

/-- With every process alive the scan deletes nothing. -/
theorem scan_alive {q : UvmSequencer α} (hk : q.AllAlive ss) {turns i : Nat}
    (hl : i+turns = q.arbSequenceQ.length) (avail : List Nat) :
    scan ss relevant turns i avail q =
      if q.arbitration.isFifo then
        (q,(List.range' i turns).find? (q.eligibleAt ss.toSequenceTree relevant),avail)
      else (q,none,avail ++
        (List.range' i turns).filter (q.eligibleAt ss.toSequenceTree relevant)) := by
  induction turns generalizing i avail with
  | zero => simp [scan]
  | succ turns ih =>
    have hi : i < q.arbSequenceQ.length := by omega
    have hr := List.getElem?_eq_getElem hi
    have hd := hk _ (List.getElem_mem hi)
    have ha : q.eligibleAt ss.toSequenceTree relevant i =
        q.eligible ss.toSequenceTree relevant q.arbSequenceQ[i] := by
      simp [eligibleAt,hr]
    have hn : i+1+turns = q.arbSequenceQ.length := by omega
    unfold scan
    simp only [hr,hd,Bool.false_eq_true,if_false,List.range'_succ,List.find?_cons,
      List.filter_cons,ha]
    cases he : q.eligible ss.toSequenceTree relevant q.arbSequenceQ[i] with
    | false => simp [ih hn]
    | true => cases hf : q.arbitration.isFifo <;> simp [ih hn,hf]

end Scan

theorem eligible_iff (q : UvmSequencer α) (t : SequenceTree) (relevant : Nat → Bool)
    (r : SequenceRequest) : q.eligible t relevant r = true ↔
      r.request = .req ∧ q.isBlocked t r.sequencePtr = false ∧
        relevant r.sequencePtr = true := by
  simp [eligible,and_assoc]

theorem mem_available {q : UvmSequencer α} {t : SequenceTree} {relevant : Nat → Bool}
    {i : Nat} : i ∈ q.available t relevant ↔
      ∃ r, q.arbSequenceQ[i]? = some r ∧ q.eligible t relevant r = true := by
  unfold available eligibleAt
  rw [List.mem_filter,List.mem_range,Option.any_eq_true_iff_get]
  constructor
  · rintro ⟨hi,hs,he⟩
    exact ⟨_,(Option.some_get hs).symm,he⟩
  · rintro ⟨r,hr,he⟩
    exact ⟨(List.getElem?_eq_some_iff.mp hr).1,by simp [hr],by simp [hr,he]⟩

theorem available_nodup (q : UvmSequencer α) (t : SequenceTree) (relevant : Nat → Bool) :
    (q.available t relevant).Nodup :=
  List.nodup_range.filter _

theorem unblocked_available (q : UvmSequencer α) (t : SequenceTree) (relevant : Nat → Bool) :
    q.unblocked t (q.available t relevant) = q.available t relevant := by
  unfold unblocked
  split
  · rw [List.filter_eq_self]
    intro i hi
    obtain ⟨r,hr,he⟩ := mem_available.mp hi
    simp [hr,((eligible_iff q t relevant r).mp he).2.1]
  · rfl

/-- What the choice comes to when no requesting process is dead. -/
theorem chooseNextRequest_alive {q : UvmSequencer α} {ss : Sequences}
    (hk : (q.grantQueuedLocks ss).AllAlive ss) (relevant : Nat → Bool) (draw : Nat) :
    q.chooseNextRequest ss relevant draw =
      if q.arbitration.isFifo ∨
          ((q.grantQueuedLocks ss).available ss.toSequenceTree relevant).length ≤ 1 then
        (q.grantQueuedLocks ss,
          ((q.grantQueuedLocks ss).available ss.toSequenceTree relevant).head?)
      else (q.grantQueuedLocks ss).chooseAmong ss.toSequenceTree draw
        ((q.grantQueuedLocks ss).available ss.toSequenceTree relevant) := by
  have hm : (q.grantQueuedLocks ss).arbitration = q.arbitration := by
    obtain ⟨q',ht,⟨hq,_⟩ | ⟨i,r,_,_,hq⟩⟩ := grantQueuedLocks_cases q ss
    · rw [hq,ht.rest]
    · rw [hq]
      change q'.arbitration = _
      rw [ht.rest]
  have hs := scan_alive ss relevant hk (i := 0) (Nat.zero_add _) []
  unfold chooseNextRequest
  rw [← hm]
  generalize q.grantQueuedLocks ss = p at hk hs ⊢
  rw [← List.range_eq_range',List.nil_append] at hs
  have ha : (List.range p.arbSequenceQ.length).filter
      (p.eligibleAt ss.toSequenceTree relevant) = p.available ss.toSequenceTree relevant := rfl
  rw [ha,← List.head?_filter,ha] at hs
  simp only [hs]
  cases hf : p.arbitration.isFifo with
  | true =>
    cases (p.available ss.toSequenceTree relevant).head? <;> simp [hf]
  | false =>
    simp only [Bool.false_eq_true,if_false,hf,false_or,unblocked_available]
    by_cases hn : (p.available ss.toSequenceTree relevant).length ≤ 1
    · simp [hn]
    · simp [hn]

theorem weightedFrom_mem {priority : Nat → Int32} {temp sum : Int32} {avail : List Nat} {i : Nat}
    (h : weightedFrom priority temp sum avail = some i) : i ∈ avail := by
  induction avail generalizing sum with
  | nil => cases h
  | cons j avail ih =>
    unfold weightedFrom at h
    split at h
    · cases h
      exact List.mem_cons_self
    · exact List.mem_cons_of_mem j (ih h)

/-- Below the limit of an `int` nothing wraps. -/
theorem toInt_add_of_lt {a b : Int32} {m n : Nat} (ha : a.toInt = m) (hb : b.toInt = n)
    (hlt : m+n < 2^31) : (a+b).toInt = (m+n : Nat) := by
  rw [Int32.toInt_add,ha,hb,Int.bmod_eq_of_le_mul_two (by omega) (by omega)]
  omega

theorem sumPriority_toInt {priority : Nat → Int32} {avail : List Nat}
    (hp : ∀ i ∈ avail, 0 ≤ priority i)
    (hlt : (avail.map (fun i => (priority i).toNatClampNeg)).sum < 2^31) :
    (sumPriority priority avail).toInt =
      ((avail.map (fun i => (priority i).toNatClampNeg)).sum : Nat) := by
  induction avail using List.reverseRecOn with
  | nil => rfl
  | append_singleton avail i ih =>
    have hi : (priority i).toInt = ((priority i).toNatClampNeg : Nat) := by
      have hi := Int32.le_iff_toInt_le.mp (hp i (by simp))
      exact (Int.toNat_of_nonneg hi).symm
    rw [List.map_append,List.sum_append] at hlt ⊢
    simp only [List.map_cons,List.map_nil,List.sum_singleton] at hlt ⊢
    have hs := ih (fun j hj => hp j (List.mem_append_left _ hj)) (by omega)
    unfold sumPriority at hs ⊢
    rw [List.foldl_append]
    exact toInt_add_of_lt hs hi hlt

/-- The loop of weighted arbitration reads a wheel with one sector for each priority. -/
theorem weightedFrom_eq {priority : Nat → Int32} {avail : List Nat}
    (hp : ∀ i ∈ avail, 0 ≤ priority i) {temp : Int32} (sum : Int32) {m t : Nat}
    (hs : sum.toInt = m) (ht : temp.toInt = (m+t : Nat))
    (hlt : m + (avail.map (fun i => (priority i).toNatClampNeg)).sum < 2^31) :
    weightedFrom priority temp sum avail =
      (Roulette.sector (avail.map (fun i => (priority i).toNatClampNeg)) t).bind (avail[·]?) := by
  induction avail generalizing sum m t with
  | nil => rfl
  | cons i avail ih =>
    have hi : (priority i).toInt = ((priority i).toNatClampNeg : Nat) := by
      have hi := Int32.le_iff_toInt_le.mp (hp i List.mem_cons_self)
      exact (Int.toNat_of_nonneg hi).symm
    rw [List.map_cons,List.sum_cons] at hlt
    have hsum := toInt_add_of_lt hs hi (by omega)
    have hgt : priority i + sum > temp ↔ t < (priority i).toNatClampNeg := by
      rw [gt_iff_lt,Int32.lt_iff_toInt_lt,Int32.add_comm,hsum,ht]
      omega
    unfold weightedFrom
    rw [List.map_cons,Roulette.sector]
    by_cases hti : t < (priority i).toNatClampNeg
    · simp [hti,hgt.mpr hti]
    · have hrest := ih (fun j hj => hp j (List.mem_cons_of_mem i hj)) _ hsum
        (t := t - (priority i).toNatClampNeg) (by omega) (by omega)
      rw [if_neg (mt hgt.mp hti),if_neg hti,hrest]
      cases Roulette.sector (avail.map (fun i => (priority i).toNatClampNeg))
        (t - (priority i).toNatClampNeg) <;> simp

theorem keepHighest_fold {priority : Nat → Int32} {avail : List Nat}
    (hp : ∀ i ∈ avail, 0 ≤ priority i) : ∃ m,
      avail.foldl (keepHighest priority) ([],0) =
        (avail.filter (fun i => decide (priority i = m)),m) ∧
      (∀ i ∈ avail, priority i ≤ m) ∧ (m = 0 ∨ ∃ i ∈ avail, priority i = m) := by
  induction avail using List.reverseRecOn with
  | nil => exact ⟨0,rfl,by simp,Or.inl rfl⟩
  | append_singleton avail i ih =>
    obtain ⟨m,hm,hle,hex⟩ := ih (fun j hj => hp j (List.mem_append_left _ hj))
    rw [List.foldl_append,hm,List.foldl_cons,List.foldl_nil]
    unfold keepHighest
    by_cases hgt : priority i > m
    · refine ⟨priority i,?_,?_,Or.inr ⟨i,by simp,rfl⟩⟩
      · have hn : avail.filter (fun j => decide (priority j = priority i)) = [] := by
          rw [List.filter_eq_nil_iff]
          intro j hj
          have hj := hle j hj
          simp only [decide_eq_true_eq]
          grind
        simp [hgt,hn]
      · intro j hj
        rcases List.mem_append.mp hj with hj | hj
        · have hj := hle j hj
          grind
        · rw [List.mem_singleton.mp hj]
          exact Int32.le_refl _
    · refine ⟨m,?_,?_,?_⟩
      · by_cases he : priority i = m <;> simp [hgt,he]
      · intro j hj
        rcases List.mem_append.mp hj with hj | hj
        · exact hle j hj
        · rw [List.mem_singleton.mp hj]
          exact Int32.not_lt.mp hgt
      · rcases hex with hz | ⟨j,hj,he⟩
        · exact Or.inl hz
        · exact Or.inr ⟨j,List.mem_append_left _ hj,he⟩

def isHighest (priority : Nat → Int32) (avail : List Nat) (i : Nat) : Bool :=
  avail.all (fun j => decide (priority j ≤ priority i))

theorem highestSequences_eq {priority : Nat → Int32} {avail : List Nat}
    (hp : ∀ i ∈ avail, 0 ≤ priority i) :
    highestSequences priority avail = avail.filter (isHighest priority avail) := by
  obtain ⟨m,hm,hle,hex⟩ := keepHighest_fold hp
  unfold highestSequences
  rw [hm]
  apply List.filter_congr
  intro i hi
  unfold isHighest
  rw [Bool.eq_iff_iff]
  simp only [decide_eq_true_eq,List.all_eq_true]
  constructor
  · intro he j hj
    rw [he]
    exact hle j hj
  · intro h
    have hi' := hle i hi
    rcases hex with hz | ⟨j,hj,he⟩
    · have h' := hp i hi
      grind
    · have hj := h j hj
      grind

theorem mem_of_highest {priority : Nat → Int32} {avail : List Nat} {i : Nat}
    (h : i ∈ highestSequences priority avail) : i ∈ avail := by
  unfold highestSequences at h
  induction avail using List.reverseRecOn with
  | nil => exact h
  | append_singleton avail j ih =>
    rw [List.foldl_append,List.foldl_cons,List.foldl_nil,keepHighest] at h
    split at h
    · rw [List.mem_singleton.mp h]
      simp
    · split at h
      · rcases List.mem_append.mp h with h | h
        · exact List.mem_append_left _ (ih h)
        · exact List.mem_append_right _ h
      · exact List.mem_append_left _ (ih h)

theorem exists_highest (priority : Nat → Int32) {avail : List Nat} (hn : avail ≠ []) :
    ∃ i ∈ avail, isHighest priority avail i = true := by
  induction avail with
  | nil => exact absurd rfl hn
  | cons i avail ih =>
    by_cases he : avail = []
    · exact ⟨i,List.mem_cons_self,by simp [isHighest,he]⟩
    · obtain ⟨j,hj,hh⟩ := ih he
      simp only [isHighest,List.all_eq_true,decide_eq_true_eq] at hh
      by_cases hij : priority i ≤ priority j
      · refine ⟨j,List.mem_cons_of_mem i hj,?_⟩
        simp only [isHighest,List.all_cons,Bool.and_eq_true,decide_eq_true_eq,List.all_eq_true]
        exact ⟨hij,hh⟩
      · refine ⟨i,List.mem_cons_self,?_⟩
        simp only [isHighest,List.all_cons,Bool.and_eq_true,decide_eq_true_eq,List.all_eq_true]
        refine ⟨Int32.le_refl _,?_⟩
        intro k hk
        have hk := hh k hk
        grind

/-- No request for an item has an illegal priority. Requests for a lock have none. -/
def Legal (q : UvmSequencer α) (t : SequenceTree) : Prop :=
  ∀ r ∈ q.arbSequenceQ, r.request = .req → illegalPriority t r = none

theorem legal_nonneg {q : UvmSequencer α} {t : SequenceTree} (hl : q.Legal t)
    {relevant : Nat → Bool} {i : Nat} (hi : i ∈ q.available t relevant) :
    0 ≤ q.priorityAt t i := by
  obtain ⟨r,hr,he⟩ := mem_available.mp hi
  have h := hl r (List.mem_of_getElem? hr) ((eligible_iff q t relevant r).mp he).1
  unfold illegalPriority at h
  simp only [priorityAt,hr,Option.map_some,Option.getD_some,getSeqItemPriority]
  split at h
  · rename_i hp
    rw [if_pos hp]
    split at h
    · cases h
    · grind
  · rename_i hp
    rw [if_neg hp]
    split at h
    · cases h
    · grind

theorem legal_findSome {q : UvmSequencer α} {t : SequenceTree} (hl : q.Legal t)
    (relevant : Nat → Bool) :
    ((q.available t relevant).filterMap (fun i => q.arbSequenceQ[i]?)).findSome?
      (illegalPriority t) = none := by
  rw [List.findSome?_eq_none_iff]
  intro r hr
  obtain ⟨i,hi,hr⟩ := List.mem_filterMap.mp hr
  obtain ⟨r',hr',he⟩ := mem_available.mp hi
  rw [hr] at hr'
  cases hr'
  exact hl r (List.mem_of_getElem? hr) ((eligible_iff q t relevant r).mp he).1

/-- A choice is one of the available positions, and making it changes nothing. -/
theorem chooseAmong_some {q q' : UvmSequencer α} {t : SequenceTree} {draw i : Nat}
    {avail : List Nat} (h : q.chooseAmong t draw avail = (q',some i)) : q' = q ∧ i ∈ avail := by
  unfold chooseAmong at h
  cases hm : q.arbitration with
  | fifo => simp [hm] at h
  | weighted =>
    simp only [hm] at h
    split at h
    · cases h
    · split at h
      · rename_i hw
        cases h
        exact ⟨rfl,weightedFrom_mem hw⟩
      · cases h
  | random =>
    simp only [hm,Prod.mk.injEq] at h
    exact ⟨h.1.symm,List.mem_of_getElem? h.2⟩
  | strictFifo =>
    simp only [hm] at h
    split at h
    · cases h
    · simp only [Prod.mk.injEq] at h
      exact ⟨h.1.symm,mem_of_highest (List.mem_of_head? h.2)⟩
  | strictRandom =>
    simp only [hm] at h
    split at h
    · cases h
    · simp only [Prod.mk.injEq] at h
      exact ⟨h.1.symm,mem_of_highest (List.mem_of_getElem? h.2)⟩
  | user arbitration =>
    simp only [hm] at h
    split at h
    · rename_i hc
      cases h
      exact ⟨rfl,List.contains_iff_mem.mp hc⟩
    · cases h

theorem grantQueuedLocks_sublist (q : UvmSequencer α) (ss : Sequences) :
    List.Sublist (q.grantQueuedLocks ss).arbSequenceQ q.arbSequenceQ := by
  obtain ⟨q',ht,⟨hq,_⟩ | ⟨i,r,_,_,hq⟩⟩ := grantQueuedLocks_cases q ss
  · rw [hq]
    exact ht.arb
  · rw [hq]
    exact (List.eraseIdx_sublist _ i).trans ht.arb

theorem grantQueuedLocks_arbitration (q : UvmSequencer α) (ss : Sequences) :
    (q.grantQueuedLocks ss).arbitration = q.arbitration := by
  obtain ⟨q',ht,⟨hq,_⟩ | ⟨i,r,_,_,hq⟩⟩ := grantQueuedLocks_cases q ss
  · rw [hq,ht.rest]
  · rw [hq]
    change q'.arbitration = _
    rw [ht.rest]

theorem AllAlive.grantQueuedLocks {q : UvmSequencer α} {ss : Sequences}
    (hk : q.AllAlive ss) : (q.grantQueuedLocks ss).AllAlive ss :=
  fun r hr => hk r ((grantQueuedLocks_sublist q ss).mem hr)

theorem Legal.grantQueuedLocks {q : UvmSequencer α} {ss : Sequences}
    (hl : q.Legal ss.toSequenceTree) : (q.grantQueuedLocks ss).Legal ss.toSequenceTree :=
  fun r hr => hl r ((grantQueuedLocks_sublist q ss).mem hr)

theorem chooseAmong_rest (q : UvmSequencer α) (t : SequenceTree) (draw : Nat)
    (avail : List Nat) :
    ∃ messages, (q.chooseAmong t draw avail).1 = { q with reports := messages } := by
  unfold chooseAmong
  simp only
  split
  · exact ⟨_,rfl⟩
  · split
    · exact ⟨_,rfl⟩
    · split <;> exact ⟨_,rfl⟩
  · exact ⟨_,rfl⟩
  · split <;> exact ⟨_,rfl⟩
  · split <;> exact ⟨_,rfl⟩
  · split <;> exact ⟨_,rfl⟩

/-- A choice settles the locks and deletes dead requests; granting is left to the caller. -/
theorem chooseNextRequest_settles (q : UvmSequencer α) (ss : Sequences)
    (relevant : Nat → Bool) (draw : Nat) :
    ∃ p, Settles ss.toSequenceTree (Dead ss) q p ∧
      Trimmed ss.toSequenceTree (Dead ss) p (q.chooseNextRequest ss relevant draw).1 := by
  refine ⟨q.grantQueuedLocks ss,settles_grantQueuedLocks q ss,?_⟩
  unfold chooseNextRequest
  generalize q.grantQueuedLocks ss = p
  have ht := trimmed_scan ss relevant p.arbSequenceQ.length 0 [] p
  simp only
  generalize scan ss relevant p.arbSequenceQ.length 0 [] p = result at ht ⊢
  rcases result with ⟨p',i | i,avail⟩
  · simp only
    split
    · exact ht
    · split
      · exact ht
      · split
        · exact ht
        · obtain ⟨messages,hm⟩ := p'.chooseAmong_rest ss.toSequenceTree draw _
          rw [hm]
          exact trimmed_trans ht (trimmed_reports p' messages)
  · exact ht

/-- Whom the arbiter may choose: never a lock request, a dead process, an irrelevant sequence
or one that a lock of a foreign sequence keeps out. -/
theorem chosen_eligible {q q' : UvmSequencer α} {ss : Sequences} {relevant : Nat → Bool}
    {draw i : Nat} (hm : q.arbitration.isFifo = true ∨ q.AllAlive ss)
    (h : q.chooseNextRequest ss relevant draw = (q',some i)) :
    ∃ r, q'.arbSequenceQ[i]? = some r ∧ r.request = .req ∧ ss.killed r.sequencePtr = false ∧
      relevant r.sequencePtr = true ∧
      ∀ l ∈ q'.lockList, l = r.sequencePtr ∨ ss.isChild l r.sequencePtr = true := by
  have hr : ∃ r, q'.arbSequenceQ[i]? = some r ∧ ss.killed r.sequencePtr = false ∧
      q'.eligible ss.toSequenceTree relevant r = true := by
    rcases hm with hm | hk
    · unfold chooseNextRequest at h
      have hf := grantQueuedLocks_arbitration q ss
      generalize q.grantQueuedLocks ss = p at h hf
      simp only at h
      have ht := trimmed_scan ss relevant p.arbSequenceQ.length 0 [] p
      cases hs : scan ss relevant p.arbSequenceQ.length 0 [] p with
      | mk p' c =>
        obtain ⟨j,avail⟩ := c
        rw [hs] at h ht
        have hp := congrArg UvmSequencer.arbitration ht.rest
        simp only at hp
        cases j with
        | none => simp [hp,hf,hm] at h
        | some j =>
          cases h
          exact scan_found ss relevant hs
    · have hk := hk.grantQueuedLocks
      rw [chooseNextRequest_alive hk] at h
      have hi : q' = q.grantQueuedLocks ss ∧
          i ∈ (q.grantQueuedLocks ss).available ss.toSequenceTree relevant := by
        split at h
        · simp only [Prod.mk.injEq] at h
          exact ⟨h.1.symm,List.mem_of_head? h.2⟩
        · exact chooseAmong_some h
      obtain ⟨rfl,hi⟩ := hi
      obtain ⟨r,hr,he⟩ := mem_available.mp hi
      exact ⟨r,hr,hk r (List.mem_of_getElem? hr),he⟩
  obtain ⟨r,hr,hd,he⟩ := hr
  obtain ⟨hq,hb,hv⟩ := (eligible_iff _ _ _ _).mp he
  exact ⟨r,hr,hq,hd,hv,(isBlocked_eq_false_iff _ _ _).mp hb⟩

/-- Two sequences of one parent, which waits for a lock in front of them. -/
def pairSequences : Sequences where
  parents s := if s < 2 then [2] else []
  priority _ := 100
  fullName _ := "seq"
  killed _ := false
  finished _ := false

/-- The later one of the two requests for an item has the higher priority. -/
def pairQueued (arbitration : ArbMode) : UvmSequencer Nat :=
  { UvmSequencer.new Nat "sqr" arbitration with
    arbSequenceQ := [⟨3,0,0,.lock,2⟩,⟨1,1,1,.req,0⟩,⟨2,2,2,.req,1⟩] }

theorem pairQueued_alive (arbitration : ArbMode) :
    (pairQueued arbitration).AllAlive pairSequences := fun _ _ => rfl

theorem pairQueued_legal (arbitration : ArbMode) :
    (pairQueued arbitration).Legal pairSequences.toSequenceTree := by
  intro r hr
  simp only [pairQueued,List.mem_cons,List.not_mem_nil,or_false] at hr
  rcases hr with rfl | rfl | rfl <;> decide

/-- Strict arbitration takes a request that no available one beats in priority: the first
of these in the queue, or with the draws each of them. There is one whenever a request is
available. -/
theorem strict_choice {q : UvmSequencer α} {ss : Sequences} (relevant : Nat → Bool)
    (hk : q.AllAlive ss) (hl : q.Legal ss.toSequenceTree) :
    let p := q.grantQueuedLocks ss
    let avail := p.available ss.toSequenceTree relevant
    let highest := avail.filter (isHighest (p.priorityAt ss.toSequenceTree) avail)
    (highest = [] ↔ avail = []) ∧
    (q.arbitration = .strictFifo →
      ∀ draw, (q.chooseNextRequest ss relevant draw).2 = highest.head?) ∧
    (q.arbitration = .strictRandom →
      ∀ i, (∃ draw, (q.chooseNextRequest ss relevant draw).2 = some i) ↔ i ∈ highest) := by
  have hc := chooseNextRequest_alive hk.grantQueuedLocks relevant
  have hm := grantQueuedLocks_arbitration q ss
  have hl := hl.grantQueuedLocks
  generalize q.grantQueuedLocks ss = p at hc hm hl
  have hh : highestSequences (p.priorityAt ss.toSequenceTree)
      (p.available ss.toSequenceTree relevant) = _ :=
    highestSequences_eq (fun i hi => legal_nonneg hl hi)
  have hs := legal_findSome hl relevant
  have hone : (p.available ss.toSequenceTree relevant).length ≤ 1 →
      (p.available ss.toSequenceTree relevant).filter (isHighest
        (p.priorityAt ss.toSequenceTree) (p.available ss.toSequenceTree relevant)) =
      p.available ss.toSequenceTree relevant := by
    intro hn
    generalize p.available ss.toSequenceTree relevant = avail at hn
    rcases avail with _ | ⟨i,_ | ⟨j,avail⟩⟩
    · rfl
    · simp [isHighest]
    · simp at hn
  refine ⟨?_,?_,?_⟩
  · constructor
    · intro hnone
      by_contra hn
      obtain ⟨i,hi,hb⟩ := exists_highest (p.priorityAt ss.toSequenceTree) hn
      rw [List.filter_eq_nil_iff] at hnone
      exact hnone i hi hb
    · intro hn
      rw [hn,List.filter_nil]
  · intro ha draw
    rw [hc]
    by_cases hn : (p.available ss.toSequenceTree relevant).length ≤ 1
    · simp [hn,hone hn]
    · rw [ha] at hm
      simp [ha,ArbMode.isFifo,hn,chooseAmong,hm,hs,hh]
  · intro ha i
    rw [ha] at hm
    by_cases hn : (p.available ss.toSequenceTree relevant).length ≤ 1
    · simp only [hc,hn,or_true,if_true,hone hn,exists_const]
      generalize p.available ss.toSequenceTree relevant = avail at hn
      rcases avail with _ | ⟨j,_ | ⟨k,avail⟩⟩
      · simp
      · simp [eq_comm]
      · simp at hn
    · simp only [hc,ha,ArbMode.isFifo,hn,Bool.false_eq_true,or_self,if_false,chooseAmong,hm,hs,
        hh]
      constructor
      · rintro ⟨draw,hd⟩
        exact List.mem_of_getElem? hd
      · intro hi
        obtain ⟨k,hk,he⟩ := List.mem_iff_getElem.mp hi
        exact ⟨k,by rw [Nat.mod_eq_of_lt hk,List.getElem?_eq_getElem hk,he]⟩

/-- The lock is granted first, and both sequences may pass it. -/
theorem pairQueued_strict :
    ((pairQueued .strictFifo).chooseNextRequest pairSequences (fun _ => true) 0).2 =
      some 1 :=
  (strict_choice (fun _ => true) (pairQueued_alive .strictFifo)
    (pairQueued_legal .strictFifo)).2.1 rfl 0

/-- The priorities of the available requests. -/
def wheel (q : UvmSequencer α) (t : SequenceTree) (relevant : Nat → Bool) : List Nat :=
  (q.available t relevant).map (fun i => (q.priorityAt t i).toNatClampNeg)

/-- How many values `$urandom_range` has to choose from in weighted arbitration. -/
def drawRange (q : UvmSequencer α) (t : SequenceTree) (relevant : Nat → Bool) : Nat :=
  (sumPriority (q.priorityAt t) (q.available t relevant) - 1).toUInt32.toNat + 1

theorem drawRange_eq {q : UvmSequencer α} {t : SequenceTree} (hl : q.Legal t)
    {relevant : Nat → Bool} (hpos : 0 < (q.wheel t relevant).sum)
    (hlt : (q.wheel t relevant).sum < 2^31) :
    q.drawRange t relevant = (q.wheel t relevant).sum := by
  have hs := sumPriority_toInt (fun i hi => legal_nonneg hl hi) hlt
  change _ = (((q.wheel t relevant).sum : Nat) : Int) at hs
  have hone : (1 : Int32) ≤ sumPriority (q.priorityAt t) (q.available t relevant) := by
    rw [Int32.le_iff_toInt_le,hs]
    change (1 : Int) ≤ _
    omega
  have hsub := Int32.toInt_sub_of_le _ 1 (by decide) hone
  rw [hs] at hsub
  change _ = (((q.wheel t relevant).sum : Nat) : Int) - 1 at hsub
  have hnonneg : 0 ≤ sumPriority (q.priorityAt t) (q.available t relevant) - 1 := by
    rw [Int32.le_iff_toInt_le,hsub]
    change (0 : Int) ≤ _
    omega
  unfold drawRange
  rw [Int32.toNat_toUInt32_of_le hnonneg]
  unfold Int32.toNatClampNeg
  rw [hsub]
  omega

theorem weighted_some_iff {q : UvmSequencer α} {t : SequenceTree} (hl : q.Legal t)
    {relevant : Nat → Bool} (hlt : (q.wheel t relevant).sum < 2^31) {k i : Nat}
    (hk : (q.available t relevant)[k]? = some i) {draw : Nat}
    (hd : draw < (q.wheel t relevant).sum) :
    weightedFrom (q.priorityAt t) (Int32.ofNat draw) 0 (q.available t relevant) = some i ↔
      Roulette.sector (q.wheel t relevant) draw = some k := by
  have ht : (Int32.ofNat draw).toInt = (0+draw : Nat) := by
    rw [Int32.toInt_ofNat_of_lt (by omega),Nat.zero_add]
  have hw := weightedFrom_eq (fun i hi => legal_nonneg hl hi) 0 (m := 0) rfl ht
    (by rw [Nat.zero_add]; exact hlt)
  have hn := available_nodup q t relevant
  rw [hw,Option.bind_eq_some_iff]
  constructor
  · rintro ⟨j,hj,hi⟩
    have hlen := ((Roulette.sector_eq_some_iff _ _ _).mp hj).1
    rw [List.length_map] at hlen
    rw [List.nodup_iff_getElem?_ne_getElem?] at hn
    obtain hjk | hjk | hjk := Nat.lt_trichotomy j k
    · exact absurd (hi.trans hk.symm) (hn j k hjk (List.getElem?_eq_some_iff.mp hk).1)
    · rw [← hjk]
      exact hj
    · exact absurd (hk.trans hi.symm) (hn k j hjk hlen)
  · intro hj
    exact ⟨k,hj,hk⟩

theorem chooseAmong_weighted {q : UvmSequencer α} {t : SequenceTree} (hl : q.Legal t)
    (hm : q.arbitration = .weighted) {relevant : Nat → Bool}
    (hlt : (q.wheel t relevant).sum < 2^31) {draw : Nat}
    (hd : draw < (q.wheel t relevant).sum) :
    (q.chooseAmong t draw (q.available t relevant)).2 =
      weightedFrom (q.priorityAt t) (Int32.ofNat draw) 0 (q.available t relevant) := by
  have hr := drawRange_eq hl (by omega) hlt
  unfold drawRange at hr
  have hdraw : urandomRange (sumPriority (q.priorityAt t) (q.available t relevant) -
      1).toUInt32 draw = draw := by
    unfold urandomRange
    rw [hr,Nat.mod_eq_of_lt hd]
  unfold chooseAmong
  simp only [hm,legal_findSome hl,hdraw]
  cases weightedFrom (q.priorityAt t) (Int32.ofNat draw) 0 (q.available t relevant) <;> rfl

/-- Weighted arbitration is fair to the weights: of the values that `$urandom_range` draws
from, as many choose a request as its priority says. The sum of the priorities has to fit
into an `int`. -/
theorem weighted_choice {q : UvmSequencer α} {ss : Sequences} {relevant : Nat → Bool}
    (hm : q.arbitration = .weighted) (hk : q.AllAlive ss) (hl : q.Legal ss.toSequenceTree)
    (hpos : 0 < ((q.grantQueuedLocks ss).wheel ss.toSequenceTree relevant).sum)
    (hlt : ((q.grantQueuedLocks ss).wheel ss.toSequenceTree relevant).sum < 2^31)
    {i : Nat} (hi : i ∈ (q.grantQueuedLocks ss).available ss.toSequenceTree relevant) :
    let p := q.grantQueuedLocks ss
    ((Finset.range (p.drawRange ss.toSequenceTree relevant)).filter
      (fun draw => (q.chooseNextRequest ss relevant draw).2 = some i)).card =
      (p.priorityAt ss.toSequenceTree i).toNatClampNeg := by
  have hc := chooseNextRequest_alive hk.grantQueuedLocks relevant
  have hp := grantQueuedLocks_arbitration q ss
  have hl := hl.grantQueuedLocks
  generalize q.grantQueuedLocks ss = p at hpos hlt hi hc hp hl
  rw [hm] at hp
  simp only [hc,hm,ArbMode.isFifo,Bool.false_eq_true,false_or,drawRange_eq hl hpos hlt]
  by_cases hn : (p.available ss.toSequenceTree relevant).length ≤ 1
  · unfold wheel
    generalize p.available ss.toSequenceTree relevant = avail at hi hn
    rcases avail with _ | ⟨j,_ | ⟨k,avail⟩⟩
    · cases hi
    · rw [List.mem_singleton.mp hi]
      simp
    · simp at hn
  · obtain ⟨k,hklt,he⟩ := List.mem_iff_getElem.mp hi
    have hw : k < (p.wheel ss.toSequenceTree relevant).length := by simpa [wheel] using hklt
    have hget : (p.available ss.toSequenceTree relevant)[k]? = some i := by
      rw [List.getElem?_eq_getElem hklt,he]
    have hcard := Roulette.card_sector (p.wheel ss.toSequenceTree relevant) hw
    have hweight : (p.wheel ss.toSequenceTree relevant)[k] =
        (p.priorityAt ss.toSequenceTree i).toNatClampNeg := by
      simp only [wheel,List.getElem_map,he]
    rw [← hweight,← hcard]
    congr 1
    apply Finset.filter_congr
    intro draw hdraw
    have hd := Finset.mem_range.mp hdraw
    rw [if_neg hn,chooseAmong_weighted hl hp hlt hd]
    exact weighted_some_iff hl hlt hget hd

/-- Two of the three draws go to the request of priority 2. -/
theorem pairQueued_weighted :
    ((Finset.range 3).filter (fun draw => ((pairQueued .weighted).chooseNextRequest
      pairSequences (fun _ => true) draw).2 = some 1)).card = 2 :=
  weighted_choice (i := 1) rfl (pairQueued_alive .weighted) (pairQueued_legal .weighted)
    (by decide) (by decide) (by decide)

end UvmSequencer

end MemoryController.Uvm
