import MemoryController.Library.Lines
import MemoryController.Regression

/-!
The report summary of a simulation and what the substring search of the script finds in
it. The counts are printed by the report server with the format `"%s :%5d\n"`.
-/

set_option autoImplicit false

namespace MemoryController
open Lines

inductive Severity where
  | info | warning | error | fatal
  deriving DecidableEq, Repr

def Severity.name : Severity → String
  | .info => "UVM_INFO"
  | .warning => "UVM_WARNING"
  | .error => "UVM_ERROR"
  | .fatal => "UVM_FATAL"

def severityLine (s : Severity) (count : Nat) : String :=
  s.name ++ " :" ++ String.leftpad 5 ' ' (toString count) ++ "\n"

def severityLines (counts : Severity → Nat) : String :=
  severityLine .info (counts .info) ++ severityLine .warning (counts .warning) ++
    severityLine .error (counts .error) ++ severityLine .fatal (counts .fatal)

structure MarkerFree where
  text : String
  no_error : contains errorMarker text = false
  no_fatal : contains fatalMarker text = false

structure Header extends MarkerFree where
  first : text.toList.head? = some '\n'
  last : text.toList.getLast? = some '\n'

/-- How a simulation ends: with a report summary, or before it got to one. -/
inductive Outcome where
  | summarized (log : MarkerFree) (header : Header) (counts : Severity → Nat)
      (tail : MarkerFree)
  | died (stdout : MarkerFree)

def Outcome.stdout : Outcome → String
  | .summarized log header counts tail =>
    log.text ++ (header.text ++ severityLines counts) ++ tail.text
  | .died out => out.text

structure Simulation where
  test : String
  returncode : Int
  outcome : Outcome

def Simulation.result (sim : Simulation) : String × CompletedProcess :=
  (sim.test,⟨sim.returncode,sim.outcome.stdout⟩)

/-- The simulation has to count as failed. -/
def Simulation.bad (sim : Simulation) : Bool :=
  sim.returncode != 0 ||
    match sim.outcome with
    | .summarized _ _ counts _ => counts .error != 0 || counts .fatal != 0
    | .died _ => true

def marker (s : Severity) : String := s.name ++ " :" ++ "    0"

theorem errorMarker_eq : errorMarker = marker .error := rfl

theorem fatalMarker_eq : fatalMarker = marker .fatal := rfl

theorem contains_iff (m text : String) :
    contains m text = true ↔ m.toList <:+: text.toList := decide_eq_true_iff

theorem contains_false_iff (m text : String) :
    contains m text = false ↔ ¬ m.toList <:+: text.toList := decide_eq_false_iff_not

theorem marker_toList (s : Severity) :
    (marker s).toList = (s.name.toList ++ [' ']) ++ ':' :: "    0".toList := by
  simp [marker]

theorem toList_leftpad (w : Nat) (c : Char) (s : String) :
    (String.leftpad w c s).toList = List.leftpad w c s.toList := String.toList_ofList

theorem severityLine_toList (s : Severity) (n : Nat) : (severityLine s n).toList =
    (s.name.toList ++ [' ']) ++ ':' :: (List.leftpad 5 ' ' (Nat.toDigits 10 n) ++ ['\n']) := by
  simp [severityLine,toList_leftpad,Nat.toString_eq_repr]

theorem newline_not_mem_marker (s : Severity) : '\n' ∉ (marker s).toList := by
  cases s <;> decide

theorem colon_not_mem_name (s : Severity) : ':' ∉ s.name.toList ++ [' '] := by
  cases s <;> decide

theorem name_suffix_iff (s t : Severity) :
    s.name.toList ++ [' '] <:+ t.name.toList ++ [' '] ↔ s = t := by
  cases s <;> cases t <;> decide

theorem not_mem_toDigits {c : Char} (hc : c.isDigit = false) (n : Nat) :
    c ∉ Nat.toDigits 10 n := by
  intro h
  rw [Nat.isDigit_of_mem_toDigits (by decide) (by decide) h] at hc
  cases hc

theorem toDigits_zero_iff (n : Nat) : Nat.toDigits 10 0 = Nat.toDigits 10 n ↔ n = 0 := by
  constructor
  · intro h
    have hn := congrArg (fun d => Nat.ofDigitChars 10 d 0) h
    simp only [Nat.ofDigitChars_ten_toDigits] at hn
    exact hn.symm
  · intro h
    rw [h]

/-- A zero right-aligned to five columns starts the field of a zero count only, also when
the count needs all five columns or more. -/
theorem zero_field_iff (n : Nat) :
    "    0".toList <+: List.leftpad 5 ' ' (Nat.toDigits 10 n) ++ ['\n'] ↔ n = 0 := by
  have hz : "    0".toList = List.leftpad 5 ' ' (Nat.toDigits 10 0) := by decide
  have hs : ∀ m, ' ' ∉ Nat.toDigits 10 m := not_mem_toDigits (by decide)
  rw [hz,← toDigits_zero_iff n,← leftpad_prefix_iff (w := 5) (hs 0) (hs n) (by decide)]
  constructor
  · intro h
    apply List.prefix_of_prefix_length_le h (List.prefix_append _ _)
    rw [List.length_leftpad,List.length_leftpad]
    exact Nat.max_le.mpr ⟨Nat.le_max_left _ _,Nat.le_trans (by decide) (Nat.le_max_left _ _)⟩
  · intro h
    exact h.trans (List.prefix_append _ _)

theorem marker_infix_line (s t : Severity) (n : Nat) :
    (marker s).toList <:+: (severityLine t n).toList ↔ s = t ∧ n = 0 := by
  have hc : ':' ∉ List.leftpad 5 ' ' (Nat.toDigits 10 n) ++ ['\n'] := by
    have hd := not_mem_toDigits (show ':'.isDigit = false by decide) n
    simp [List.leftpad,List.mem_replicate,hd]
  rw [marker_toList,severityLine_toList,infix_mark (colon_not_mem_name t) hc,name_suffix_iff,
    zero_field_iff]

theorem severityLine_last (s : Severity) (n : Nat) :
    (severityLine s n).toList.getLast? = some '\n' := by
  rw [severityLine_toList,← List.cons_append,← List.append_assoc,List.getLast?_concat]

theorem severityLines_toList (counts : Severity → Nat) : (severityLines counts).toList =
    ([Severity.info,.warning,.error,.fatal].map
      (fun t => (severityLine t (counts t)).toList)).flatten := by
  simp [severityLines]

theorem marker_infix_lines (s : Severity) (counts : Severity → Nat) :
    (marker s).toList <:+: (severityLines counts).toList ↔ counts s = 0 := by
  rw [severityLines_toList,infix_flatten (newline_not_mem_marker s)]
  · simp only [List.mem_map,exists_exists_and_eq_and,marker_infix_line]
    constructor
    · intro h
      obtain ⟨t,_,rfl,h0⟩ := h
      exact h0
    · intro h
      exact ⟨s,by cases s <;> simp,rfl,h⟩
  · cases s <;> decide
  · simp [severityLine_last]

theorem severityLines_last (counts : Severity → Nat) :
    (severityLines counts).toList.getLast? = some '\n' := by
  rw [severityLines,String.toList_append,List.getLast?_append,severityLine_last]
  rfl

/-- Around the counts a marker occurs neither in a piece nor across two pieces. -/
theorem contains_summarized (s : Severity) (log : MarkerFree) (header : Header)
    (counts : Severity → Nat) (tail : MarkerFree)
    (hl : contains (marker s) log.text = false)
    (hh : contains (marker s) header.text = false)
    (ht : contains (marker s) tail.text = false) :
    contains (marker s) (Outcome.summarized log header counts tail).stdout =
      (counts s == 0) := by
  rw [contains_false_iff] at hl hh ht
  have hn := newline_not_mem_marker s
  have hf : (header.text.toList ++ (severityLines counts).toList).head? = some '\n' := by
    rw [List.head?_append,header.first]
    rfl
  have he : (log.text.toList ++ (header.text.toList ++ (severityLines counts).toList)).getLast? =
      some '\n' := by
    rw [List.getLast?_append,List.getLast?_append,severityLines_last]
    rfl
  rw [Bool.eq_iff_iff,beq_iff_eq,contains_iff,Outcome.stdout,String.toList_append,
    String.toList_append,String.toList_append,infix_append_of_last hn he,
    infix_append_of_first hn hf,infix_append_of_last hn header.last,marker_infix_lines]
  simp [hl,hh,ht]

theorem testFailed_result (sim : Simulation) : testFailed sim.result.2 = sim.bad := by
  unfold testFailed Simulation.bad Simulation.result
  congr 1
  cases sim.outcome with
  | summarized log header counts tail =>
    have he := contains_summarized .error log header counts tail log.no_error
      header.no_error tail.no_error
    have hf := contains_summarized .fatal log header counts tail log.no_fatal
      header.no_fatal tail.no_fatal
    rw [← errorMarker_eq] at he
    rw [← fatalMarker_eq] at hf
    simp only [he,hf]
    exact Bool.not_and _ _
  | died out => simp [Outcome.stdout,out.no_error]

/-- The verdict of the script, for any tests, logs and counts: which tests it puts into
`failed`, everything it prints, and its exit status. -/
theorem regression_verdict (sims : List Simulation) :
    let failed := (sims.filter Simulation.bad).map Simulation.test
    regression (sims.map Simulation.result) =
      (⟨"My UVM Regression" :: sims.flatMap (fun sim =>
          ["\nRunning " ++ sim.test ++ "...",sim.outcome.stdout,
            sim.test ++ if sim.bad then " FAILED" else " PASSED"]) ++
        " Regression Summary" ::
          (if failed = [] then ["All " ++ toString sims.length ++ " tests PASSED."]
          else "FAILED TESTS:" :: failed.map (fun test => "  - " ++ test)),failed⟩,
        if failed = [] then 0 else 1) := by
  have hf : ((sims.map Simulation.result).filter (fun e => testFailed e.2)).map Prod.fst =
      (sims.filter Simulation.bad).map Simulation.test := by
    rw [List.filter_map,List.map_map]
    congr 1
    apply List.filter_congr
    intro sim _
    exact testFailed_result sim
  have ht : (sims.map Simulation.result).flatMap (fun e => testTranscript e.1 e.2) =
      sims.flatMap (fun sim => ["\nRunning " ++ sim.test ++ "...",sim.outcome.stdout,
        sim.test ++ if sim.bad then " FAILED" else " PASSED"]) := by
    rw [List.flatMap_map]
    congr 1
    funext sim
    rw [testTranscript,testFailed_result]
    rfl
  rw [regression_eq,hf,ht,List.length_map]
  rfl

def emptyText : MarkerFree := ⟨"",by decide,by decide⟩

def summaryHeader : Header where
  text := "\n--- UVM Report Summary ---\n\n** Report counts by severity\n"
  no_error := by decide
  no_fatal := by decide
  first := by decide
  last := by decide

/-- The count of 10 errors ends in the digit of the marker. -/
def tenErrors : Simulation where
  test := "memory_test"
  returncode := 0
  outcome := .summarized emptyText summaryHeader (fun s => if s = .error then 10 else 0) emptyText

theorem tenErrors_failed : (regression [tenErrors.result]).1.failed = ["memory_test"] ∧
    (regression [tenErrors.result]).2 = 1 := by
  have h := regression_verdict [tenErrors]
  have hb : ([tenErrors].filter Simulation.bad).map Simulation.test = ["memory_test"] := by decide
  simp only [hb,List.map_cons,List.map_nil] at h
  rw [h]
  exact ⟨rfl,rfl⟩

end MemoryController
