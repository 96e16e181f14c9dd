import Mathlib.Data.Int.Notation
import Mathlib.Logic.Function.Basic
import Vcass.Config.Parser

/-!
# The option tables of the configuration upgrade

`make_config.py` reads three configurations: the default one of the old release, what the user has made of it,
and the default one of the new release. For every option it collects the three texts, and the options are then
merged one by one.

## Python

An exception that nothing catches ends the script with exit code 1, whichever it is; a function that may raise
one returns an `Option`. A dictionary is the list of its items in the order in which the keys were added. It is
gone through in an order of Python's own, which is a parameter here, as is the order of the three trees.

## Trees

An element is a property tree; its attributes are under `<xmlattr>`, and an element without text has none.
-/

namespace Vcass.Upgrade

open Vcass.Config

/-! ## Dictionaries, lists and numbers -/

abbrev Dict (α : Type) := List (String × α)

namespace Dict

variable {α : Type}

def get (d : Dict α) (key : String) : Option α := (d.find? fun p ↦ p.1 = key).map Prod.snd

def set (d : Dict α) (key : String) (val : α) : Dict α :=
  if d.any fun p ↦ p.1 = key then d.map fun p ↦ if p.1 = key then (key, val) else p
  else d ++ [(key, val)]

/-- Something inside the value of a key is assigned: there is a `KeyError` without the key. -/
def modify (d : Dict α) (key : String) (f : α → Option α) : Option (Dict α) :=
  (d.get key).bind fun val ↦ (f val).map fun val ↦ d.set key val

/-- The items, in the order of the keys that a loop has. -/
def items (loop : List String → List String) (d : Dict α) : List (String × α) :=
  (loop (d.map Prod.fst)).filterMap fun key ↦ (d.get key).map fun val ↦ (key, val)

end Dict

/-- `int`, of a text. -/
def pyInt (s : String) : Option ℤ :=
  let (neg, cs) := splitSign (s.toList.dropWhile isSpace)
  let n : ℤ := digitsVal (cs.takeWhile Char.isDigit)
  if cs.takeWhile Char.isDigit = [] ∨ (cs.dropWhile Char.isDigit).dropWhile isSpace ≠ [] then none
  else some (if neg then -n else n)

/-- An index of a list: a negative one counts from the end. -/
def pyIndex (len : ℕ) (i : ℤ) : Option ℕ :=
  if 0 ≤ i ∧ i < len then some i.toNat
  else if -len ≤ i ∧ i < 0 then some (i + len).toNat
  else none

/-- An assignment to an element of a list. -/
def setItem {α : Type} (xs : List α) (i : ℤ) (x : α) : Option (List α) :=
  (pyIndex xs.length i).map fun k ↦ xs.set k x

/-! ## Elements -/

/-- The children of an element. -/
def subelements (t : Ptree) : List (String × Ptree) := t.children.filter fun c ↦ c.1 ≠ Ptree.xmlattr

def findall (t : Ptree) (tag : String) : List Ptree := ((subelements t).filter fun c ↦ c.1 = tag).map Prod.snd

def text (t : Ptree) : Option String := if t.data = "" then none else some t.data

/-- `int(t.attrib["id"])`. -/
def idOf (t : Ptree) : Option ℤ := (t.attr "id").bind pyInt

/-! ## The three configurations -/

/-- The keys of the dictionary of trees. -/
inductive XmlConfig
  | o
  | u
  | n
  deriving DecidableEq, Repr

/-- The three texts of an option; one that a configuration does not have is `None`. -/
structure Values where
  old : Option String
  user : Option String
  new : Option String
  deriving DecidableEq, Repr

def Values.none : Values := ⟨.none, .none, .none⟩

/-- An assignment at `XML_IDX`. -/
def Values.set (v : Values) (val : Option String) : XmlConfig → Values
  | .o => { v with old := val }
  | .u => { v with user := val }
  | .n => { v with new := val }

def numCards : ℕ := 8

def numCpus : ℕ := 3

/-- The options of an element. -/
abbrev Props := Dict (Option String)

section Attribs

variable (order : List XmlConfig) (roots : XmlConfig → Ptree)

/-- `get_global_attribs` of one tree: only the first `global` counts. -/
def globalAttribs (root : Ptree) : Option Props :=
  (findall root "global").head?.map fun globalSection ↦
    (subelements globalSection).foldl (fun props item ↦
      props.set item.1 (if text item.2 = some "None" then none else text item.2)) []

/-- The loop over the items of a `cpu`. An empty one leaves no entry. -/
def cpuAttribs (allCpu : List (Option Props)) (cpu : Ptree) : Option (List (Option Props)) :=
  if subelements cpu = [] then some allCpu
  else (idOf cpu).bind fun id ↦
    setItem allCpu id (some ((subelements cpu).foldl (fun prop item ↦ prop.set item.1 (text item.2)) []))

/-- The CPUs of the cards; `None` stands for what is not there. -/
abbrev CardTable := List (Option (List (Option Props)))

def cardAttribs (allCard : CardTable) (card : Ptree) : Option CardTable := do
  let allCpu ← (findall card "cpu").foldlM cpuAttribs (List.replicate numCpus none)
  setItem allCard (← idOf card) (some allCpu)

/-- One tree. The list of the cards is not begun anew for it. -/
def treeAttribs (state : CardTable × (XmlConfig → CardTable)) (config : XmlConfig) :
    Option (CardTable × (XmlConfig → CardTable)) := do
  let allCard ← (findall (roots config) "card").foldlM cardAttribs state.1
  pure (allCard, Function.update state.2 config allCard)

def getCardCpuSpecificAttribs : Option (XmlConfig → CardTable) :=
  (order.foldlM (treeAttribs roots) (List.replicate numCards none, fun _ ↦ [])).map Prod.snd

/-- The devices that were found last, if any were found. -/
abbrev BDevs := Option (List (String × Ptree))

/-- The block devices of the CPUs of the cards. -/
abbrev DevTable := List (List BDevs)

/-- One CPU. The devices are those of its last `block-devs`; without one, they are those of an earlier CPU. -/
def cpuBlockDevs (card : Ptree) (state : BDevs × DevTable) (cpu : Ptree) : Option (BDevs × DevTable) := do
  let bDevs := (findall cpu "block-devs").foldl (fun _ blockDev ↦ some (subelements blockDev)) state.1
  let devs ← bDevs
  let k ← pyIndex numCards (← idOf card)
  let row ← setItem (state.2.getD k []) (← idOf cpu) (some devs)
  pure (bDevs, state.2.set k row)

def cardBlockDevs (state : BDevs × DevTable) (card : Ptree) : Option (BDevs × DevTable) :=
  (findall card "cpu").foldlM (cpuBlockDevs card) state

/-- One tree. Its table is begun anew, and what was found last is kept. -/
def treeBlockDevs (state : BDevs × (XmlConfig → DevTable)) (config : XmlConfig) :
    Option (BDevs × (XmlConfig → DevTable)) := do
  let (bDevs, table) ← (findall (roots config) "card").foldlM cardBlockDevs
    (state.1, List.replicate numCards (List.replicate numCpus none))
  pure (bDevs, Function.update state.2 config table)

def getBlockDevsAttribs : Option (XmlConfig → DevTable) :=
  (order.foldlM (treeBlockDevs roots) (none, fun _ ↦ [])).map Prod.snd

end Attribs

/-! ## Combining -/

section Combine

variable {ι β : Type} (order : List XmlConfig)

/-- What `combine_properties` does at one place of its result: a pass over the trees that makes the entries, and
one that fills them. There is a `TypeError` where a tree has `None`. The places do not depend on each other, so
they may be taken one after the other. -/
def combineAt (place : XmlConfig → Option (List ι)) (make : ι → Dict β → Dict β)
    (fill : XmlConfig → ι → Dict β → Option (Dict β)) : Option (Dict β) := do
  let result ← order.foldlM (fun result config ↦ (place config).map fun items ↦
    items.foldl (fun result item ↦ make item result) result) []
  order.foldlM (fun result config ↦ (place config).bind fun items ↦
    items.foldlM (fun result item ↦ fill config item result) result) result

def makeOption (item : String × Option String) (result : Dict Values) : Dict Values :=
  result.set item.1 Values.none

def fillOption (config : XmlConfig) (item : String × Option String) (result : Dict Values) : Option (Dict Values) :=
  result.modify item.1 fun values ↦ some (values.set item.2 config)

/-- The entry of a device is made anew for each tree that has it. -/
def makeDev (dev : String × Ptree) (result : Dict (Dict Values)) : Dict (Dict Values) :=
  result.set dev.1 ((subelements dev.2).foldl (fun entry prop ↦ entry.set prop.1 Values.none) [])

def fillDev (config : XmlConfig) (dev : String × Ptree) (result : Dict (Dict Values)) : Option (Dict (Dict Values)) :=
  (subelements dev.2).foldlM (fun result prop ↦
    result.modify dev.1 fun entry ↦ entry.modify prop.1 fun values ↦ some (values.set (text prop.2) config)) result

end Combine

/-! ## The list of options -/

/-- What an option belongs to. -/
inductive Target
  | global
  | node (card cpu : ℕ)
  | blockDev (card cpu : ℕ) (name : String)
  deriving DecidableEq, Repr

/-- One option that has to be merged. -/
structure Job where
  target : Target
  option : String
  values : Values
  deriving DecidableEq, Repr

/-- An updater goes through its options. -/
def updater (loop : List String → List String) (target : Target) (options : Dict Values) : List Job :=
  (options.items loop).map fun p ↦ ⟨target, p.1, p.2⟩

/-- What `combine_properties` makes of the options of a CPU. -/
def combineOptions (order : List XmlConfig) (cards : XmlConfig → CardTable) (card cpu : ℕ) : Option (Dict Values) :=
  combineAt order (fun config ↦ ((cards config).getD card none).bind fun allCpu ↦ allCpu.getD cpu none)
    makeOption fillOption

/-- What it makes of the block devices of a CPU. -/
def combineDevs (order : List XmlConfig) (devs : XmlConfig → DevTable) (card cpu : ℕ) : Option (Dict (Dict Values)) :=
  combineAt order (fun config ↦ ((devs config).getD card []).getD cpu none) makeDev fillDev

/-- The updaters of one CPU. -/
def cpuJobs (loop : List String → List String) (order : List XmlConfig)
    (cards : XmlConfig → CardTable) (devs : XmlConfig → DevTable) (card cpu : ℕ) :
    Option (List Job) := do
  let cardCpuOpt ← combineOptions order cards card cpu
  let blockDevOpt ← combineDevs order devs card cpu
  pure (updater loop (.node card cpu) cardCpuOpt ++
    (blockDevOpt.items loop).flatMap fun p ↦ updater loop (.blockDev card cpu p.1) p.2)

/-- All options, in the order in which they are merged. Nothing is merged before they are all there. -/
def allJobs (loop : List String → List String) (order : List XmlConfig) (roots : XmlConfig → Ptree) :
    Option (List Job) := do
  let props ← order.mapM fun config ↦ (globalAttribs (roots config)).map fun props ↦ (config, props)
  let globalOptions ← combineAt order (fun config ↦ (props.find? fun p ↦ p.1 = config).map Prod.snd)
    makeOption fillOption
  let cards ← getCardCpuSpecificAttribs order roots
  let devs ← getBlockDevsAttribs order roots
  let nodes := (List.range numCards).flatMap fun card ↦ (List.range numCpus).map fun cpu ↦ (card, cpu)
  let jobs ← nodes.mapM fun (card, cpu) ↦ cpuJobs loop order cards devs card cpu
  pure (updater loop .global globalOptions ++ jobs.flatten)

end Vcass.Upgrade
