import Mathlib.Data.List.Infix

/-! The script `regression.py`, on any list of tests with any results. -/

set_option autoImplicit false

namespace MemoryController

/-- The operator `in` on strings. -/
def contains (marker text : String) : Bool := decide (marker.toList <:+: text.toList)

structure CompletedProcess where
  returncode : Int
  stdout : String

structure Regression where
  printed : List String
  failed : List String
  deriving DecidableEq, Repr

def Regression.print (r : Regression) (text : String) : Regression :=
  { r with printed := r.printed ++ [text] }

def Regression.fail (r : Regression) (test : String) : Regression :=
  { r with failed := r.failed ++ [test] }

def errorMarker : String := "UVM_ERROR :    0"
def fatalMarker : String := "UVM_FATAL :    0"

def runTest (r : Regression) (test : String) (result : CompletedProcess) : Regression :=
  let r := r.print ("\nRunning " ++ test ++ "...")
  let r := r.print result.stdout
  if result.returncode ≠ 0 then
    let r := r.fail test
    r.print (test ++ " FAILED")
  else if contains errorMarker result.stdout && contains fatalMarker result.stdout then
    r.print (test ++ " PASSED")
  else
    let r := r.fail test
    r.print (test ++ " FAILED")

/-- The part after the loop, with the exit status of the script. -/
def regressionSummary (r : Regression) (tests : Nat) : Regression × Nat :=
  let r := r.print " Regression Summary"
  if r.failed ≠ [] then
    let r := r.print "FAILED TESTS:"
    (r.failed.foldl (fun r test => r.print ("  - " ++ test)) r,1)
  else
    (r.print ("All " ++ toString tests ++ " tests PASSED."),0)

def regression (results : List (String × CompletedProcess)) : Regression × Nat :=
  let r : Regression := ⟨[],[]⟩
  let r := r.print "My UVM Regression"
  regressionSummary (results.foldl (fun r e => runTest r e.1 e.2) r) results.length

def testFailed (result : CompletedProcess) : Bool :=
  result.returncode != 0 ||
    !(contains errorMarker result.stdout && contains fatalMarker result.stdout)

def testTranscript (test : String) (result : CompletedProcess) : List String :=
  ["\nRunning " ++ test ++ "...",result.stdout,
    test ++ if testFailed result then " FAILED" else " PASSED"]

def summaryTranscript (failed : List String) (tests : Nat) : List String :=
  " Regression Summary" ::
    if failed = [] then ["All " ++ toString tests ++ " tests PASSED."]
    else "FAILED TESTS:" :: failed.map (fun test => "  - " ++ test)

theorem runTest_eq (r : Regression) (test : String) (result : CompletedProcess) :
    runTest r test result = ⟨r.printed ++ testTranscript test result,
      r.failed ++ if testFailed result then [test] else []⟩ := by
  by_cases hr : result.returncode = 0
  · cases hc : contains errorMarker result.stdout && contains fatalMarker result.stdout <;>
      simp [runTest,testTranscript,testFailed,Regression.print,Regression.fail,hr,hc]
  · simp [runTest,testTranscript,testFailed,Regression.print,Regression.fail,hr]

theorem runTests_eq (r : Regression) (results : List (String × CompletedProcess)) :
    results.foldl (fun r e => runTest r e.1 e.2) r =
      ⟨r.printed ++ results.flatMap (fun e => testTranscript e.1 e.2),
        r.failed ++ (results.filter (fun e => testFailed e.2)).map Prod.fst⟩ := by
  induction results generalizing r with
  | nil => simp
  | cons e results ih =>
    rw [List.foldl_cons,ih,runTest_eq]
    cases hf : testFailed e.2 <;> simp [hf]

theorem printAll_eq (r : Regression) (tests : List String) :
    tests.foldl (fun r test => r.print ("  - " ++ test)) r =
      ⟨r.printed ++ tests.map (fun test => "  - " ++ test),r.failed⟩ := by
  induction tests generalizing r with
  | nil => simp
  | cons test tests ih =>
    rw [List.foldl_cons,ih]
    simp [Regression.print]

theorem regressionSummary_eq (r : Regression) (tests : Nat) : regressionSummary r tests =
    (⟨r.printed ++ summaryTranscript r.failed tests,r.failed⟩,
      if r.failed = [] then 0 else 1) := by
  simp only [regressionSummary,printAll_eq]
  by_cases hf : r.failed = [] <;> simp [summaryTranscript,Regression.print,hf]

theorem regression_eq (results : List (String × CompletedProcess)) :
    let failed := (results.filter (fun e => testFailed e.2)).map Prod.fst
    regression results =
      (⟨"My UVM Regression" :: results.flatMap (fun e => testTranscript e.1 e.2) ++
        summaryTranscript failed results.length,failed⟩,if failed = [] then 0 else 1) := by
  simp only [regression,Regression.print,runTests_eq,regressionSummary_eq]
  simp

end MemoryController
