import Vcass.Upgrade.Tables

/-!
# Merging the options of a configuration upgrade

For every option the script encodes how the three texts differ, lets an update strategy decide what to do, and
calls `vcactl` with the text that was chosen. It ends at the first thing that goes wrong, and the calls that were
made before stay made.

## The outside

What the user types, what `vcactl` does to the stored configuration, and a signal or an exception that ends the
script between two options are not in the hands of the script; all of them may differ from option to option.
-/

namespace Vcass.Upgrade

open Vcass.Config

/-! ## Strategies -/

/-- The state of an option in one of the configurations. -/
inductive Change
  /-- Default. -/
  | d
  /-- Modified, or added. -/
  | m
  | del
  /-- A new default. -/
  | nd
  deriving DecidableEq, Repr

/-- `__encode_changes`, branch by branch. The last one returns `None`. -/
def encodeChanges (v : Values) : Option (Change × Change × Change) :=
  if v.old = v.user then
    if v.user = v.new then some (.d, .d, .d)
    else if v.user ≠ v.new ∧ v.new ≠ none then some (.d, .d, .nd)
    else some (.d, .d, .del)
  else if v.old ≠ v.user ∧ v.user ≠ none then
    if v.new = v.old then some (.d, .m, .d)
    else if v.new = none then some (.d, .m, .del)
    else some (.d, .m, .nd)
  else if v.old = none ∧ v.user ≠ none ∧ v.new = none then some (.del, .m, .del)
  else if v.old = v.new ∧ v.user = none then some (.d, .del, .d)
  else if v.old = none ∧ v.user ≠ none ∧ v.new ≠ none then some (.del, .m, .d)
  else if v.old = none ∧ v.user = none ∧ v.new ≠ none then some (.del, .del, .nd)
  else if v.old = none ∧ v.user = none ∧ v.new = none then some (.del, .del, .del)
  else none

/-- `UPDATE_ACTIONS`. -/
inductive Action
  | noAction
  | applyUser
  | wrnApplyUser
  | newDefault
  | delete
  | error
  | newUsr
  | unknown
  deriving DecidableEq, Repr

/-- What ends the script. -/
inductive Raised
  | badXmlConfiguration
  | unknownActionTaken
  | calledProcessError (returncode : ℤ)
  /-- An exception that nothing catches. -/
  | uncaught
  deriving DecidableEq, Repr

def Raised.exitCode : Raised → ℤ
  | badXmlConfiguration => 3
  | unknownActionTaken => 3
  | calledProcessError returncode => returncode
  | uncaught => 1

/-- What the user types at `Action[2]:`. -/
inductive Answer
  | one
  | three
  | other
  /-- It raises something else than a `SyntaxError` or a `NameError`. -/
  | raises
  deriving DecidableEq, Repr

/-- `str`, of a text that is printed, raises if the text is not ASCII. A missing text is printed as another one. -/
def printable (val : Option String) : Bool := val.all fun s ↦ s.toList.all fun c ↦ c.toNat < 128

/-- The three texts are printed, and then the user is asked. -/
def askUser (v : Values) (answer : Answer) : Except Raised Action :=
  if !(printable v.old && printable v.user && printable v.new) then .error .uncaught
  else
    match answer with
    | .one => .ok .applyUser
    | .three => .ok .newUsr
    | .other => .ok .newDefault
    | .raises => .error .uncaught

inductive UpdateMode
  | manual
  | semiAuto
  | fullAuto
  deriving DecidableEq, Repr

/-- `ManualUpdate`. -/
def decideManual (v : Values) (answer : Answer) (c : Change × Change × Change) : Except Raised Action :=
  if c.2.1 = .del ∧ c.1 = .d ∧ c.2.2 = .d then .ok .error else askUser v answer

/-- `SemiAutoUpdate`. -/
def decideSemiAuto (v : Values) (answer : Answer) (c : Change × Change × Change) : Except Raised Action :=
  match c with
  | (.d, .d, .d) => .ok .noAction
  | (.d, .d, .nd) => .ok .newDefault
  | (.d, .d, .del) => .ok .delete
  | (.d, .m, .d) => .ok .applyUser
  -- the test of the source is `'nd' or 'del'`, which is always true
  | (.d, .m, _) => askUser v answer
  | (.d, .del, _) => .ok .error
  | (.del, .m, .del) => .ok .applyUser
  | (.del, .m, .nd) => .ok .newDefault
  -- the user is asked, and the answer is dropped
  | (.del, .m, _) => (askUser v answer).map fun _ ↦ .unknown
  | _ => .ok .unknown

/-- `FullAutoUpdate`. -/
def decideFullAuto (c : Change × Change × Change) : Action :=
  if c.1 = .d ∧ c.2.1 = .m ∧ c.2.2 = .d then .applyUser
  else if (c.1 = .del ∨ c.1 = .d) ∧ c.2.1 = .m ∧ c.2.2 = .del then .applyUser
  else if (c.1 = .del ∨ c.1 = .d) ∧ c.2.1 = .m ∧ (c.2.2 = .d ∨ c.2.2 = .nd) then .wrnApplyUser
  else if c.2.1 = .del ∧ c.1 = .d ∧ c.2.2 = .d then .error
  else if c.2.2 = .del then .delete
  else if c.1 = .d ∧ c.2.1 = .d ∧ c.2.2 = .d then .noAction
  else if c.1 = .d ∧ c.2.1 = .d ∧ c.2.2 = .nd then .newDefault
  else .unknown

def decideAction (mode : UpdateMode) (v : Values) (answer : Answer) (c : Change × Change × Change) :
    Except Raised Action :=
  match mode with
  | .manual => decideManual v answer c
  | .semiAuto => decideSemiAuto v answer c
  | .fullAuto => .ok (decideFullAuto c)

/-- `AbstractUpdate.run`: two of the actions are raised, a warning prints the new default, and `None` has no items. -/
def run (mode : UpdateMode) (v : Values) (answer : Answer) (changes : Option (Change × Change × Change)) :
    Except Raised Action :=
  match changes with
  | none => .error .uncaught
  | some c =>
    match decideAction mode v answer c with
    | .error e => .error e
    | .ok .unknown => .error .unknownActionTaken
    | .ok .error => .error .badXmlConfiguration
    | .ok .wrnApplyUser => if printable v.new then .ok .wrnApplyUser else .error .uncaught
    | .ok action => .ok action

/-- `__choose_value`. What the user types is `none` if it raises an exception. -/
def chooseValue (action : Action) (v : Values) (typed : Option String) : Except Raised (Option String) :=
  match action with
  | .newUsr =>
    match typed with
    | some s => .ok (some s)
    | none => .error .uncaught
  | .noAction => .ok v.old
  | .applyUser => .ok v.user
  | .wrnApplyUser => .ok v.user
  | .newDefault => .ok v.new
  | .delete => .ok (some "")
  | .error => .ok none
  | .unknown => .ok none

/-! ## The updater -/

/-- The arguments of `vcactl config`. -/
structure Call where
  target : Target
  option : String
  value : String
  deriving DecidableEq, Repr

/-- What happens outside of the script, from option to option. -/
structure World where
  /-- The script is ended before the option, with an exit code. -/
  stop : ℕ → Option ℤ
  answer : ℕ → Answer
  typed : ℕ → Option String
  /-- The return code of `vcactl`, which has none if it could not be started, and the configuration after it. -/
  vcactl : ℕ → Call → Ptree → Option ℤ × Ptree

/-- Where the script is: what ended it, if anything has, and the stored configuration. -/
structure Merged where
  ended : Option ℤ
  file : Ptree

section Execute

variable (w : World) (mode : UpdateMode) (debug : Bool)

/-- `__run_vcactl`: no value is the empty argument. A call is only printed in the debug mode. -/
def runVcactl (i : ℕ) (job : Job) (value : Option String) (file : Ptree) : Merged :=
  if debug then ⟨none, file⟩
  else
    match w.vcactl i ⟨job.target, job.option, value.getD ""⟩ file with
    | (none, file') => ⟨some Raised.uncaught.exitCode, file'⟩
    | (some code, file') => if code = 0 then ⟨none, file'⟩ else ⟨some (Raised.calledProcessError code).exitCode, file'⟩

/-- One pass of the loop of `execute`. -/
def mergeOption (i : ℕ) (job : Job) (file : Ptree) : Merged :=
  match w.stop i with
  | some code => ⟨some code, file⟩
  | none =>
    match run mode job.values (w.answer i) (encodeChanges job.values) with
    | .error e => ⟨some e.exitCode, file⟩
    | .ok action =>
      match chooseValue action job.values (w.typed i) with
      | .error e => ⟨some e.exitCode, file⟩
      | .ok value => runVcactl w debug i job value file

/-- The options from number `i` on. After the last one the script ends by itself. -/
def execute : ℕ → List Job → Ptree → ℤ × Ptree
  | i, [], file => ((w.stop i).getD 0, file)
  | i, job :: jobs, file =>
    match mergeOption w mode debug i job file with
    | ⟨some code, file'⟩ => (code, file')
    | ⟨none, file'⟩ => execute (i + 1) jobs file'

/-- The configuration after options that were merged, whatever their calls have returned. -/
def mergedFile : ℕ → List Job → Ptree → Ptree
  | _, [], file => file
  | i, job :: jobs, file => mergedFile (i + 1) jobs (mergeOption w mode debug i job file).file

end Execute

end Vcass.Upgrade
