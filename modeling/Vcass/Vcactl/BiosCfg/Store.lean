import Mathlib.Logic.Function.Basic
import Vcass.Vcactl.BiosCfg

/-!
# A BIOS that keeps what is written

The settings are a store, which takes each write at once and can be read. Before the first write a program has one
result, which is found by giving it the answers of the store. So what a list of pairs makes the program write is a
list of descriptors, `writes`, and the runs that the store serves make these writes and no others.

A configuration that is satisfied already is left alone by every name but one. To enable SGX, the epoch and the size
of the PRM are reset, and these two writes are put into the list before SGX is looked at. And a node that is not
ready is reset if it does not answer a handshake, whatever is asked for.
-/

namespace Vcass.Vcactl.BiosCfg

open Conc

abbrev Store : Type := BiosParam → ℕ

def Store.write (s : Store) (dsc : Desc) : Store := Function.update s dsc.param dsc.value

/-- A read is answered from the store. Of the other operations it is not known how they end. -/
def serve (s : Store) : Event Op Op.Answer → Option Store
  | ⟨.get param, (ok, value)⟩ => if ok = true ∧ value = s param then some s else none
  | ⟨.set param value, _⟩ => some (s.write ⟨param, value⟩)
  | _ => some s

/-- The answers of a store, and of a node that does as it is told. -/
def answers (s : Store) : ∀ o : Op, o.Answer
  | .getCpuState => CpuState.biosReady
  | .setLbpParam => true
  | .handshake => true
  | .checkForLinkUp => true
  | .get param => (true, s param)
  | .set _ _ => true
  | .pressPowerButton _ => true
  | .reset => true
  | .waitBios => true

/-! ## What the parser takes -/

/-- The arguments that give the pairs. -/
def spelled (pairs : List (Cfg × String)) : List String := pairs.flatMap fun pair ↦ [pair.1.name, pair.2]

theorem biosCfgOption_name (cfg : Cfg) : biosCfgOption cfg.name = some cfg := by
  cases cfg <;> decide

theorem foldlM_parseArg {pairs : List (Cfg × String)} {done holder : Holder}
    (hdone : done.names.length = done.values.length) (h : (spelled pairs).foldlM parseArg done = some holder) :
    holder = ⟨done.names ++ pairs.map Prod.fst, done.values ++ pairs.map Prod.snd⟩ ∧
      ∀ pair ∈ pairs, acceptsValue pair.1 pair.2 = true := by
  induction pairs generalizing done with
  | nil =>
    obtain rfl : done = holder := Option.some_inj.mp h
    simp
  | cons pair pairs ih =>
    obtain ⟨cfg, value⟩ := pair
    have hname : parseArg done cfg.name = some { done with names := done.names ++ [cfg] } := by
      rw [parseArg, if_pos hdone, biosCfgOption_name]
      rfl
    rw [spelled, List.flatMap_cons, List.cons_append, List.foldlM_cons, hname] at h
    change ([value] ++ spelled pairs).foldlM parseArg { done with names := done.names ++ [cfg] } = some holder at h
    rw [List.singleton_append, List.foldlM_cons, parseArg, if_neg (by simp [hdone]), List.getLast?_concat,
      Option.bind_some] at h
    -- the value is checked against the name that has just been taken
    split_ifs at h with haccept
    · obtain ⟨hholder, hrest⟩ := ih (by simp [hdone]) h
      refine ⟨by simpa using hholder, ?_⟩
      intro pair hpair
      rcases List.mem_cons.mp hpair with rfl | hpair
      · exact haccept
      · exact hrest pair hpair
    · cases h

theorem parseArgs_spelled {pairs : List (Cfg × String)} {holder : Holder}
    (h : parseArgs (spelled pairs) = some holder) :
    holder = ⟨pairs.map Prod.fst, pairs.map Prod.snd⟩ ∧ ∀ pair ∈ pairs, acceptsValue pair.1 pair.2 = true := by
  have hfold : (spelled pairs).foldlM parseArg ⟨[], []⟩ = some holder := by
    cases hargs : spelled pairs with
    | nil =>
      rw [hargs] at h
      cases h
    | cons arg args => rwa [hargs] at h
  have hdone := foldlM_parseArg rfl hfold
  simpa using hdone

/-! ## What a store makes of a list of pairs -/

/-- The descriptors that are left after the check. -/
def settled (s : Store) : Descs → List Desc
  | (pushed, none) => pushed
  | (pushed, some dsc) =>
    if (dsc.param ≠ .epoch1 ∧ dsc.param ≠ .sgxOwnerEpochType) ∧ dsc.value = s dsc.param then pushed
    else pushed ++ [dsc]

/-- What a pair adds to the list. -/
def added (gen1 : Bool) (s : Store) (pair : Cfg × String) : List Desc :=
  settled s ((descsOf gen1 pair.2 pair.1).eval (answers s))

def changesOf (gen1 : Bool) (s : Store) (pairs : List (Cfg × String)) : List Desc := pairs.flatMap (added gen1 s)

/-- What is written, in this order. -/
def writes (gen1 : Bool) (s : Store) (pairs : List (Cfg × String)) : List Desc :=
  if changesOf gen1 s pairs = [] then []
  else ((compatCheck gen1 (changesOf gen1 s pairs)).eval (answers s)).getD []

section Eval

variable {gen1 : Bool} {s t : Store} {pairs : List (Cfg × String)} {tr : Run} {b : Bool}

theorem eval_getBiosCfgFor (s : Store) (param : BiosParam) :
    (getBiosCfgFor param).eval (answers s) = (true, s param) := rfl

theorem eval_checkDescs (s : Store) (dscs : Descs) :
    (checkDescs dscs).eval (answers s) = some (settled s dscs) := by
  obtain ⟨pushed, dsc⟩ := dscs
  cases dsc with
  | none => rfl
  | some dsc =>
    rw [checkDescs, checkDesc, settled]
    by_cases hhidden : dsc.param = .epoch1 ∨ dsc.param = .sgxOwnerEpochType
    · rw [if_pos hhidden, if_neg fun h ↦ hhidden.elim h.1.1 h.1.2]
      rfl
    · rw [if_neg hhidden, Prog.eval_bind, Prog.eval_bind, eval_getBiosCfgFor]
      change (if dsc.value = s dsc.param then some [] else some [dsc]).map _ = _
      rw [not_or] at hhidden
      by_cases hsame : dsc.value = s dsc.param
      · simp [hsame, hhidden]
      · simp [hsame]

theorem eval_fillDescs (gen1 : Bool) (s : Store) (pairs : List (Cfg × String)) (desc : List Desc) :
    (fillDescs gen1 pairs desc).eval (answers s) = some (desc ++ changesOf gen1 s pairs) := by
  induction pairs generalizing desc with
  | nil => exact congrArg some (List.append_nil desc).symm
  | cons pair pairs ih =>
    rw [fillDescs, Prog.eval_bind, Prog.eval_bind, eval_checkDescs]
    change (fillDescs gen1 pairs (desc ++ added gen1 s pair)).eval (answers s) = _
    rw [ih, changesOf, changesOf, List.flatMap_cons, List.append_assoc]

end Eval

/-! ## Served runs -/

/-- No parameter is written, and the node is not restarted. -/
def LeftAlone (tr : Run) : Prop := ∀ e ∈ tr, e.1.isSet = false ∧ e.1.isRestart = false

/-- A handshake failed. -/
def HandshakeFailed (tr : Run) : Prop := (⟨.handshake, false⟩ : Event Op Op.Answer) ∈ tr

/-- The node is neither up nor ready, or it is up and the time of a handshake cannot be set. -/
def NotReached (tr : Run) : Prop :=
  ∃ tr', tr = ⟨.getCpuState, CpuState.other⟩ :: tr' ∨
    tr = ⟨.getCpuState, CpuState.biosUp⟩ :: ⟨.setLbpParam, false⟩ :: tr'

theorem not_handshakeFailed_nil : ¬HandshakeFailed [] := List.not_mem_nil

theorem not_handshakeFailed_cons {e : Event Op Op.Answer} {tr : Run} (he : e ≠ ⟨.handshake, false⟩)
    (h : ¬HandshakeFailed tr) : ¬HandshakeFailed (e :: tr) := List.not_mem_cons_of_ne_of_not_mem he.symm h

theorem Op.leftAlone_of_reads {o : Op} (h : o.Reads) : o.isSet = false ∧ o.isRestart = false := by
  cases o with
  | get param => exact ⟨rfl, rfl⟩
  | _ => cases h

section Served

variable {gen1 onlyTdp : Bool} {s t : Store} {pairs : List (Cfg × String)} {tr : Run} {b : Bool} {attempts : ℕ}
  {desc : List Desc}

theorem answer_of_reads {o : Op} (ho : o.Reads) (r : o.Answer) (t : Store) (h : serve s ⟨o, r⟩ = some t) :
    r = answers s o ∧ t = s := by
  cases o with
  | get param =>
    obtain ⟨ok, value⟩ := r
    rw [serve] at h
    split_ifs at h with hanswer
    obtain ⟨rfl, rfl⟩ := hanswer
    exact ⟨rfl, (Option.some_inj.mp h).symm⟩
  | _ => cases ho

/-- What is read is what is stored, so a program that reads has one result. -/
theorem yields_of_reads {α : Type} {p : Cmd α} (hp : p.Only Op.Reads) : Prog.Yields serve s p (p.eval (answers s)) :=
  hp.yields fun _ ho r t ↦ answer_of_reads ho r t

theorem exists_answer (s : Store) (o : Op) : ∃ r t, serve s ⟨o, r⟩ = some t := by
  refine ⟨answers s o, ?_⟩
  cases o with
  | get param => exact ⟨s, if_pos ⟨rfl, rfl⟩⟩
  | _ => exact ⟨_, rfl⟩

theorem serve_of_quiet {e : Event Op Op.Answer} (he : e.1.isSet = false) (h : serve s e = some t) : t = s := by
  obtain ⟨o, r⟩ := e
  cases o with
  | get param => exact (@answer_of_reads s (.get param) rfl r t h).2
  | set param value => cases he
  | _ => exact (Option.some_inj.mp h).symm

/-- A run without a write leaves the store. -/
theorem exec_of_quiet (htr : ∀ e ∈ tr, e.1.isSet = false) (h : exec serve s tr = some t) : t = s := by
  induction tr with
  | nil => exact (Option.some_inj.mp h).symm
  | cons e tr ih =>
    obtain ⟨u, hu, hrest⟩ := exec_cons.mp h
    rw [serve_of_quiet (htr e List.mem_cons_self) hu] at hrest
    exact ih (fun e he ↦ htr e (List.mem_cons_of_mem _ he)) hrest

/-- **What a served run does.** It is quiet if there is nothing to write; else it reads, and goes through the loop
with the writes. -/
theorem served_changeBiosCfg (h : (changeBiosCfg gen1 pairs).Performs tr b) (ht : exec serve s tr = some t) :
    (writes gen1 s pairs = [] ∧ ∀ e ∈ tr, e.1.Reads) ∨
      (writes gen1 s pairs ≠ [] ∧ ∃ onlyTdp attempts tr₁ tr₂, tr = tr₁ ++ tr₂ ∧ (∀ e ∈ tr₁, e.1.Reads) ∧
        (applyDescs gen1 onlyTdp (writes gen1 s pairs) (attempts + 1)).Performs tr₂ b ∧
        exec serve s tr₂ = some t) := by
  obtain ⟨tr₁, tr₂, rfl, hfill, -, hrest, ht⟩ :=
    (yields_of_reads (reads_fillDescs gen1 pairs [])).performs_bind h ht
  have hquiet : ∀ e ∈ tr₁, e.1.Reads :=
    hfill.only (reads_fillDescs gen1 pairs [])
  -- whatever the run, the reads have filled the list in one way
  rw [eval_fillDescs, List.nil_append] at hrest
  change Prog.Performs (if changesOf gen1 s pairs = [] then _ else _) _ _ at hrest
  rw [writes]
  split_ifs at hrest ⊢ with hnil
  · obtain ⟨rfl, -⟩ := hrest
    left
    rw [List.append_nil]
    exact ⟨rfl, hquiet⟩
  · obtain ⟨tr₃, tr₄, rfl, hcompat, -, hloop, ht⟩ :=
      (yields_of_reads (reads_compatCheck gen1 (changesOf gen1 s pairs))).performs_bind hrest ht
    have hquiet' : ∀ e ∈ tr₃, e.1.Reads :=
      hcompat.only (reads_compatCheck gen1 _)
    have hboth : ∀ e ∈ tr₁ ++ tr₃, e.1.Reads := List.forall_mem_append.mpr ⟨hquiet, hquiet'⟩
    cases hordered : (compatCheck gen1 (changesOf gen1 s pairs)).eval (answers s) with
    | none =>
      rw [hordered] at hloop
      obtain ⟨rfl, -⟩ := hloop
      left
      rw [List.append_nil]
      exact ⟨rfl, hboth⟩
    | some ordered =>
      rw [hordered] at hloop hcompat
      obtain ⟨attempts, hattempts⟩ := exists_maxAttempts (changesOf gen1 s pairs)
      right
      refine ⟨?_, onlyTdpChange (changesOf gen1 s pairs), attempts, tr₁ ++ tr₃, tr₄, ?_, hboth, ?_, ht⟩
      · rw [Option.getD_some, ← List.length_pos_iff, length_of_compatCheck hcompat]
        exact List.length_pos_iff.mpr hnil
      · rw [List.append_assoc]
      · rw [← hattempts]
        exact hloop

theorem served_setBiosCfg {cfgs : List Cfg} {values : List String}
    (h : (setBiosCfg gen1 cfgs values).Performs tr b) (ht : exec serve s tr = some t) :
    (∀ e ∈ tr, e.1.isSet = false) ∨
      (writes gen1 s (cfgs.zip values) ≠ [] ∧ ∃ onlyTdp attempts tr₁ tr₂, tr = tr₁ ++ tr₂ ∧
        (∀ e ∈ tr₁, e.1.isSet = false) ∧
        (applyDescs gen1 onlyTdp (writes gen1 s (cfgs.zip values)) (attempts + 1)).Performs tr₂ b ∧
        exec serve s tr₁ = some s ∧ exec serve s tr₂ = some t) := by
  rcases performs_setBiosCfg h with hquiet | ⟨start, tr', rfl, hquiet, hchange⟩
  · exact .inl hquiet
  · obtain ⟨u, hu, hrest⟩ := exec_append.mp ht
    obtain rfl := exec_of_quiet hquiet hu
    rcases served_changeBiosCfg hchange hrest with ⟨-, hreads⟩ | ⟨hne, onlyTdp, n, tr₁, tr₂, rfl, hreads, hloop, hend⟩
    · exact .inl (List.forall_mem_append.mpr ⟨hquiet, fun e he ↦ Op.isSet_of_isGet (hreads e he)⟩)
    · right
      obtain ⟨v, hv, -⟩ := exec_append.mp hrest
      have hquiet' : ∀ e ∈ tr₁, e.1.isSet = false := fun e he ↦ Op.isSet_of_isGet (hreads e he)
      obtain rfl := exec_of_quiet hquiet' hv
      exact ⟨hne, onlyTdp, n, start ++ tr₁, tr₂, by rw [List.append_assoc],
        List.forall_mem_append.mpr ⟨hquiet, hquiet'⟩, hloop, exec_append.mpr ⟨_, hu, hv⟩, hend⟩

/-- If there is something to write, it is written in some run. -/
theorem exists_served (hne : writes gen1 s pairs ≠ []) :
    ∃ tr b t, (setBiosCfg gen1 (pairs.map Prod.fst) (pairs.map Prod.snd)).Performs tr b ∧ exec serve s tr = some t ∧
      ∃ onlyTdp attempts tr₁ tr₂, tr = tr₁ ++ tr₂ ∧ exec serve s tr₁ = some s ∧
        (applyDescs gen1 onlyTdp (writes gen1 s pairs) (attempts + 1)).Performs tr₂ b := by
  obtain ⟨tr, b, t, h, ht⟩ := Prog.exists_served exists_answer s (changeBiosCfg gen1 pairs)
  -- the run is one of a node that was ready
  rcases served_changeBiosCfg h ht with ⟨hnil, -⟩ | ⟨-, onlyTdp, attempts, tr₁, tr₂, rfl, hquiet, hloop, -⟩
  · exact absurd hnil hne
  · have hzip : (pairs.map Prod.fst).zip (pairs.map Prod.snd) = pairs :=
      (List.zip_of_prod rfl rfl).symm
    refine ⟨⟨.getCpuState, CpuState.biosReady⟩ :: (tr₁ ++ tr₂), b, t, ?_, ?_, ?_⟩
    · apply performs_of_biosReady
      · rw [List.length_map, List.length_map]
      · rwa [hzip]
    · exact exec_cons.mpr ⟨s, rfl, ht⟩
    · refine ⟨onlyTdp, attempts, ⟨.getCpuState, CpuState.biosReady⟩ :: tr₁, tr₂, rfl, ?_, hloop⟩
      obtain ⟨u, hu, -⟩ := exec_append.mp ht
      obtain rfl := exec_of_quiet (fun e he ↦ Op.isSet_of_isGet (hquiet e he)) hu
      exact exec_cons.mpr ⟨_, rfl, hu⟩

/-- After a start without a write or a restart, what follows leaves the node alone if there is nothing to write. -/
theorem leftAlone_append_iff {start : Run} (hstart : LeftAlone start) (hshaken : ¬HandshakeFailed start)
    (h : (changeBiosCfg gen1 pairs).Performs tr b) (ht : exec serve s tr = some t) :
    LeftAlone (start ++ tr) ↔ ¬HandshakeFailed (start ++ tr) ∧ writes gen1 s pairs = [] := by
  rcases served_changeBiosCfg h ht with ⟨hnil, hreads⟩ | ⟨hne, onlyTdp, attempts, tr₁, tr₂, rfl, -, hloop, -⟩
  · apply iff_of_true
    · exact List.forall_mem_append.mpr ⟨hstart, fun e he ↦ Op.leftAlone_of_reads (hreads e he)⟩
    · refine ⟨fun hfailed ↦ ?_, hnil⟩
      rcases List.mem_append.mp hfailed with hfailed | hfailed
      · exact hshaken hfailed
      · exact Bool.false_ne_true (hreads _ hfailed)
  · apply iff_of_false
    · obtain ⟨⟨⟩, w, rest, rfl, hw, -⟩ := Prog.performs_bind.mp hloop
      obtain ⟨e, he⟩ : ∃ e, e ∈ w := by
        apply List.exists_mem_of_length_pos
        rw [length_of_writeDescs hw]
        exact List.length_pos_iff.mpr hne
      intro hquiet
      have hset := isSet_of_writeDescs hw e he
      rw [(hquiet e (by simp [he])).1] at hset
      cases hset
    · exact fun h ↦ hne h.2

end Served

/-! ## A configuration that is satisfied -/

/-- What a pair asks for. An epoch never leaves the node, so it cannot be compared. -/
def requested : Cfg → String → Option Desc
  | .sgx, value => some ⟨.sgx, isEnable value⟩
  | .epoch, _ => none
  | .prm, value => (prmFromString value).map (Desc.mk .sgxMem)
  | .ht, value => some ⟨.ht, isEnable value⟩
  | .gpu, value => some ⟨.gpu, isEnable value⟩
  | .gpuAperture, value => (apertureFromString value).map (Desc.mk .gpuAperture)
  | .tdp, value => (tdpFromString value).map (Desc.mk .tdp)

/-- The parameter has the requested value. -/
def Satisfied (s : Store) (pair : Cfg × String) : Prop :=
  ∃ dsc, requested pair.1 pair.2 = some dsc ∧ s dsc.param = dsc.value

/-- What is put into the list before SGX is looked at. -/
def sgxResets : List Desc := [⟨.sgxToFactory, 1⟩, ⟨.sgxMem, 0⟩]

section Satisfied

variable {gen1 : Bool} {s : Store} {pairs : List (Cfg × String)}

theorem eval_isEpochDefault (s : Store) :
    isEpochDefault.eval (answers s) = decide (s .sgxToFactory ≠ 0) := rfl

theorem eval_isSgxEnabled (s : Store) : isSgxEnabled.eval (answers s) = decide (s .sgx ≠ 0) := rfl

theorem eval_descsOfSgx (s : Store) (value : String) :
    (descsOfSgx gen1 value).eval (answers s) =
      if gen1 then ([], none)
      else if value = "disable" then ([], if s .sgxToFactory ≠ 0 then some ⟨.sgx, 0⟩ else none)
      else if value = "enable" then (sgxResets, some ⟨.sgx, 1⟩)
      else ([], some ⟨.sgx, 0⟩) := by
  rw [descsOfSgx]
  split_ifs with hgen hdisable hfactory henable
  · rfl
  · rw [Prog.eval_bind, eval_isEpochDefault, decide_eq_true hfactory]
    rfl
  · rw [Prog.eval_bind, eval_isEpochDefault, decide_eq_false hfactory]
    rfl
  · rfl
  · rfl

theorem eval_descsOfPrm (s : Store) (value : String) :
    (descsOfPrm gen1 value).eval (answers s) =
      ([], if gen1 = false ∧ s .sgx ≠ 0 then (prmFromString value).map (Desc.mk .sgxMem) else none) := by
  rw [descsOfPrm]
  cases gen1 with
  | true => rfl
  | false =>
    rw [if_neg Bool.false_ne_true, Prog.eval_bind, eval_isSgxEnabled]
    change ([], if decide (s .sgx ≠ 0) = true then _ else _) = _
    simp

/-- A pair has at most the descriptor that it asks for, unless it enables SGX. -/
theorem eval_descsOf_of_ne {cfg : Cfg} {value : String} (hepoch : cfg ≠ .epoch)
    (henable : ¬(gen1 = false ∧ (cfg, value) = (.sgx, "enable"))) :
    ∃ dsc, (descsOf gen1 value cfg).eval (answers s) = ([], dsc) ∧ ∀ d ∈ dsc, requested cfg value = some d := by
  cases cfg with
  | sgx =>
    change ∃ dsc, (descsOfSgx gen1 value).eval (answers s) = ([], dsc) ∧ _
    have hoff (hne : value ≠ "enable") : ∀ d ∈ some (Desc.mk .sgx 0), requested .sgx value = some d := by
      rintro d ⟨⟩
      rw [requested, isEnable, if_neg hne]
    rw [eval_descsOfSgx]
    split_ifs with hgen hdisable hfactory hvalue
    · exact ⟨none, rfl, fun d hd ↦ absurd hd (Option.not_mem_none d)⟩
    · refine ⟨some ⟨.sgx, 0⟩, rfl, hoff ?_⟩
      rw [hdisable]
      decide
    · exact ⟨none, rfl, fun d hd ↦ absurd hd (Option.not_mem_none d)⟩
    · exact absurd ⟨Bool.eq_false_of_not_eq_true hgen, by rw [hvalue]⟩ henable
    · exact ⟨some ⟨.sgx, 0⟩, rfl, hoff hvalue⟩
  | epoch => exact absurd rfl hepoch
  | prm =>
    refine ⟨_, eval_descsOfPrm s value, ?_⟩
    intro d hd
    split_ifs at hd
    · exact hd
    · cases hd
  | gpuAperture =>
    refine ⟨apertureDesc gen1 value, rfl, ?_⟩
    intro d hd
    obtain ⟨size, hsize, hdesc⟩ := Option.bind_eq_some_iff.mp hd
    split_ifs at hdesc
    rw [requested, hsize]
    exact hdesc
  | tdp =>
    refine ⟨_, rfl, ?_⟩
    intro d hd
    split_ifs at hd
    · cases hd
    · exact hd
  | ht =>
    refine ⟨_, rfl, ?_⟩
    intro d hd
    split_ifs at hd
    · cases hd
    · exact hd
  | gpu =>
    refine ⟨_, rfl, ?_⟩
    intro d hd
    split_ifs at hd
    · cases hd
    · exact hd

theorem requested_readable {cfg : Cfg} {value : String} {d : Desc} (h : requested cfg value = some d) :
    d.param ≠ .epoch1 ∧ d.param ≠ .sgxOwnerEpochType := by
  cases cfg with
  | epoch => cases h
  | sgx =>
    obtain rfl := Option.some_inj.mp h
    exact ⟨BiosParam.noConfusion, BiosParam.noConfusion⟩
  | ht =>
    obtain rfl := Option.some_inj.mp h
    exact ⟨BiosParam.noConfusion, BiosParam.noConfusion⟩
  | gpu =>
    obtain rfl := Option.some_inj.mp h
    exact ⟨BiosParam.noConfusion, BiosParam.noConfusion⟩
  | prm =>
    obtain ⟨size, -, rfl⟩ := Option.map_eq_some_iff.mp h
    exact ⟨BiosParam.noConfusion, BiosParam.noConfusion⟩
  | gpuAperture =>
    obtain ⟨size, -, rfl⟩ := Option.map_eq_some_iff.mp h
    exact ⟨BiosParam.noConfusion, BiosParam.noConfusion⟩
  | tdp =>
    obtain ⟨size, -, rfl⟩ := Option.map_eq_some_iff.mp h
    exact ⟨BiosParam.noConfusion, BiosParam.noConfusion⟩

/-- **A satisfied pair.** It adds nothing, unless it enables SGX. -/
theorem added_of_satisfied {pair : Cfg × String} (h : Satisfied s pair) :
    added gen1 s pair = if gen1 = false ∧ pair = (.sgx, "enable") then sgxResets else [] := by
  obtain ⟨cfg, value⟩ := pair
  obtain ⟨asked, hasked, hvalue⟩ := h
  split_ifs with henable
  · -- SGX itself is skipped, what was put into the list before is not
    obtain ⟨rfl, hpair⟩ := henable
    cases hpair
    obtain rfl := Option.some_inj.mp hasked
    change settled s ((descsOfSgx false "enable").eval (answers s)) = _
    rw [eval_descsOfSgx]
    exact if_pos ⟨⟨BiosParam.noConfusion, BiosParam.noConfusion⟩, hvalue.symm⟩
  · have hepoch : cfg ≠ .epoch := by
      rintro rfl
      cases hasked
    obtain ⟨dsc, hdescs, hdsc⟩ := @eval_descsOf_of_ne gen1 s cfg value hepoch henable
    rw [added, hdescs]
    cases dsc with
    | none => rfl
    | some d =>
      obtain rfl := Option.some_inj.mp ((hdsc d rfl).symm.trans hasked)
      exact if_pos ⟨requested_readable hasked, hvalue.symm⟩

theorem changesOf_of_satisfied (hsat : ∀ pair ∈ pairs, Satisfied s pair) :
    ∀ d ∈ changesOf gen1 s pairs, d.param = .sgxToFactory ∨ d.param = .sgxMem := by
  intro d hd
  obtain ⟨pair, hpair, hadded⟩ := List.mem_flatMap.mp hd
  rw [added_of_satisfied (hsat pair hpair)] at hadded
  split_ifs at hadded
  · rcases List.mem_cons.mp hadded with rfl | hadded
    · exact .inl rfl
    · rw [List.mem_singleton.mp hadded]
      exact .inr rfl
  · exact absurd hadded List.not_mem_nil

/-- The list is empty if no pair enables SGX. -/
theorem changesOf_eq_nil_iff (hsat : ∀ pair ∈ pairs, Satisfied s pair) :
    changesOf gen1 s pairs = [] ↔ gen1 = true ∨ (.sgx, "enable") ∉ pairs := by
  rw [changesOf, List.flatMap_eq_nil_iff]
  constructor
  · intro h
    by_cases hgen : gen1 = true
    · exact .inl hgen
    · right
      intro hmem
      have hadded := h _ hmem
      rw [added_of_satisfied (hsat _ hmem), if_pos ⟨Bool.eq_false_of_not_eq_true hgen, rfl⟩] at hadded
      exact absurd hadded (List.cons_ne_nil _ _)
  · intro h pair hpair
    rw [added_of_satisfied (hsat pair hpair), if_neg]
    rintro ⟨hgen, rfl⟩
    rcases h with h | h
    · rw [hgen] at h
      cases h
    · exact h hpair

theorem writes_of_satisfied (hsat : ∀ pair ∈ pairs, Satisfied s pair) :
    writes gen1 s pairs = changesOf gen1 s pairs := by
  have hother := @changesOf_of_satisfied gen1 s pairs hsat
  rw [writes]
  split_ifs with hnil
  · exact hnil.symm
  · -- the check is about parameters that are not written
    have hsgx : lastDesc .sgx (changesOf gen1 s pairs) = none := by
      apply lastDesc_eq_none.mpr
      intro d hd
      rcases hother d hd with h | h
      · rw [h]
        exact BiosParam.noConfusion
      · rw [h]
        exact BiosParam.noConfusion
    have haperture : lastDesc .gpuAperture (changesOf gen1 s pairs) = none := by
      apply lastDesc_eq_none.mpr
      intro d hd
      rcases hother d hd with h | h
      · rw [h]
        exact BiosParam.noConfusion
      · rw [h]
        exact BiosParam.noConfusion
    rw [compatCheck, hsgx, haperture]
    rfl

end Satisfied

/-- **A satisfied configuration is left alone** in a run, if and only if no handshake fails and the pairs do not
enable SGX on a card of the second generation, where the node can be made ready at all. -/
theorem left_alone_iff {gen1 : Bool} {s t : Store} {pairs : List (Cfg × String)} {holder : Holder} {tr : Run} {b : Bool}
    (h : parseArgs (spelled pairs) = some holder) (hsat : ∀ pair ∈ pairs, Satisfied s pair)
    (hrun : (setBiosCfg gen1 holder.names holder.values).Performs tr b) (ht : exec serve s tr = some t) :
    (∀ e ∈ tr, e.1.isSet = false ∧ e.1.isRestart = false) ↔
      (⟨.handshake, false⟩ : Event Op Op.Answer) ∉ tr ∧ (gen1 = true ∨ (.sgx, "enable") ∉ pairs ∨ NotReached tr) := by
  change LeftAlone tr ↔ ¬HandshakeFailed tr ∧ _
  obtain ⟨rfl, -⟩ := parseArgs_spelled h
  have hwrites : writes gen1 s pairs = [] ↔ gen1 = true ∨ (.sgx, "enable") ∉ pairs := by
    rw [← changesOf_eq_nil_iff hsat, ← writes_of_satisfied hsat]
  have hzip : (pairs.map Prod.fst).zip (pairs.map Prod.snd) = pairs := (List.zip_of_prod rfl rfl).symm
  have hlen : (pairs.map Prod.fst).length ≤ (pairs.map Prod.snd).length := by simp
  rcases setBiosCfg_cases hlen hrun with rfl | ⟨tr', rfl, hchange⟩ | ⟨ready, tr₁, tr₂, rfl, hready, hchange⟩
  · -- the node is in another state, and nothing is done
    apply iff_of_true
    · exact List.forall_mem_singleton.mpr ⟨rfl, rfl⟩
    · exact ⟨not_handshakeFailed_cons nofun not_handshakeFailed_nil, .inr (.inr ⟨[], .inl rfl⟩)⟩
  · rw [hzip] at hchange
    obtain ⟨u, hu, hrest⟩ := exec_cons.mp ht
    obtain rfl := Option.some.inj hu
    have hnot : ¬NotReached (⟨.getCpuState, CpuState.biosReady⟩ :: tr') := by
      rintro ⟨tr'', heq | heq⟩ <;> cases heq
    have hiff := @leftAlone_append_iff _ _ _ _ _ _ [⟨.getCpuState, CpuState.biosReady⟩]
      (List.forall_mem_singleton.mpr ⟨rfl, rfl⟩) (not_handshakeFailed_cons nofun not_handshakeFailed_nil) hchange
      hrest
    rw [List.singleton_append, hwrites] at hiff
    rw [hiff, or_iff_left hnot]
  · rw [hzip] at hchange
    rcases performs_prepareSpadToReady hready with ⟨rfl, rfl⟩ | ⟨rfl, rfl⟩ | ⟨hfailed, ok, hreset⟩
    · obtain rfl : tr₂ = [] := hchange
      apply iff_of_true
      · exact List.forall_mem_cons.mpr ⟨⟨rfl, rfl⟩, List.forall_mem_singleton.mpr ⟨rfl, rfl⟩⟩
      · refine ⟨?_, .inr (.inr ⟨[], .inr rfl⟩)⟩
        exact not_handshakeFailed_cons nofun (not_handshakeFailed_cons nofun not_handshakeFailed_nil)
    · have hshaken : ¬HandshakeFailed [⟨.getCpuState, CpuState.biosUp⟩, ⟨.setLbpParam, true⟩, ⟨.handshake, true⟩] :=
        not_handshakeFailed_cons nofun (not_handshakeFailed_cons nofun
          (not_handshakeFailed_cons nofun not_handshakeFailed_nil))
      have hstart : LeftAlone [⟨.getCpuState, CpuState.biosUp⟩, ⟨.setLbpParam, true⟩, ⟨.handshake, true⟩] := by
        simp [LeftAlone, Op.isSet, Op.isRestart]
      have hnot : ¬NotReached ([⟨.getCpuState, CpuState.biosUp⟩, ⟨.setLbpParam, true⟩, ⟨.handshake, true⟩] ++ tr₂) := by
        rintro ⟨tr'', heq | heq⟩ <;> cases heq
      have hiff := leftAlone_append_iff hstart hshaken hchange ht
      rw [hwrites] at hiff
      refine hiff.trans (and_congr_right fun _ ↦ or_congr_right ?_)
      exact (or_iff_left hnot).symm
    · -- the node was reset before anything was read
      apply iff_of_false
      · intro hquiet
        exact Bool.false_ne_true (hquiet ⟨.reset, ok⟩ (by simp [hreset])).2.symm
      · exact fun h ↦ h.1 (by simp [HandshakeFailed, hfailed])

/-- A node that is up is made ready, and has the TDP that is asked for. -/
def tdpRun : Run :=
  [⟨.getCpuState, CpuState.biosUp⟩, ⟨.setLbpParam, true⟩, ⟨.handshake, true⟩, ⟨.get .tdp, (true, 5)⟩]

theorem tdp_left_alone : (setBiosCfg false [.tdp] ["5"]).Performs tdpRun true ∧ LeftAlone tdpRun := by
  have hrun : (setBiosCfg false [.tdp] ["5"]).Performs tdpRun true :=
    ⟨_, _, rfl, _, _, rfl, _, _, rfl, _, _, rfl, rfl, rfl⟩
  refine ⟨hrun, ?_⟩
  refine (@left_alone_iff false (fun _ ↦ 5) (fun _ ↦ 5) [(.tdp, "5")] ⟨[.tdp], ["5"]⟩ tdpRun true (by decide) ?_ hrun
    rfl).mpr ⟨?_, .inr (.inl (by decide))⟩
  · intro pair hpair
    rw [List.mem_singleton.mp hpair]
    exact ⟨⟨.tdp, 5⟩, by decide, rfl⟩
  · exact not_handshakeFailed_cons nofun (not_handshakeFailed_cons nofun (not_handshakeFailed_cons nofun
      (not_handshakeFailed_cons nofun not_handshakeFailed_nil)))

/-- The same, where the first handshake fails: the node is reset, and then nothing has to be written. -/
theorem failed_handshake_resets :
    ∃ tr t, (setBiosCfg false [.tdp] ["5"]).Performs tr true ∧ exec serve (fun _ ↦ 5) tr = some t ∧
      (∀ e ∈ tr, e.1.isSet = false) ∧ (⟨.reset, true⟩ : Event Op Op.Answer) ∈ tr := by
  refine ⟨[⟨.getCpuState, CpuState.biosUp⟩, ⟨.setLbpParam, true⟩, ⟨.handshake, false⟩, ⟨.reset, true⟩,
    ⟨.checkForLinkUp, true⟩, ⟨.handshake, true⟩, ⟨.get .tdp, (true, 5)⟩], _, ?_, rfl, ?_, ?_⟩
  · exact ⟨_, _, rfl, _, _, rfl, _, _, rfl, _, _, rfl, _, _, rfl, _, _, rfl, _, _, rfl, rfl, rfl⟩
  · simp [Op.isSet]
  · simp

/-- Enabling SGX where it is enabled resets the epoch and the size of the PRM. -/
theorem enabled_sgx_resets_epoch :
    parseArgs (spelled [(.sgx, "enable")]) = some ⟨[.sgx], ["enable"]⟩ ∧ Satisfied (fun _ ↦ 1) (.sgx, "enable") ∧
      ∃ tr b t, (setBiosCfg false [.sgx] ["enable"]).Performs tr b ∧ exec serve (fun _ ↦ 1) tr = some t ∧
        (⟨.set .sgxToFactory 1, true⟩ : Event Op Op.Answer) ∈ tr ∧
        (⟨.pressPowerButton true, true⟩ : Event Op Op.Answer) ∈ tr := by
  refine ⟨by decide, ⟨⟨.sgx, 1⟩, by decide, rfl⟩, [⟨.getCpuState, CpuState.biosReady⟩, ⟨.get .sgx, (true, 1)⟩,
    ⟨.set .sgxToFactory 1, true⟩, ⟨.set .sgxMem 0, true⟩, ⟨.pressPowerButton true, true⟩,
    ⟨.pressPowerButton false, true⟩, ⟨.waitBios, true⟩, ⟨.setLbpParam, true⟩,
    ⟨.handshake, true⟩, ⟨.get .sgxToFactory, (true, 1)⟩, ⟨.get .sgxMem, (true, 0)⟩], true, _, ?_, rfl, ?_, ?_⟩
  · exact ⟨_, _, rfl, _, _, rfl, _, _, rfl, _, _, rfl, _, _, rfl, _, _, rfl, _, _, rfl, _, _, rfl, _, _, rfl, _, _, rfl,
      _, _, rfl, rfl, rfl⟩
  · simp
  · simp

end Vcass.Vcactl.BiosCfg
