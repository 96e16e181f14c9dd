import Vcass.Lib.Shell
import Vcass.Config.RoundTrip

/-!
# The boot message of the power button

When the power button of a node is pressed, `vcactl` tells the daemon to boot the node. `pwrbtn_boot` writes a line
with the card, the CPU and the path of the image into a FIFO, `parse_command` takes the line apart with `sscanf`, and
`vca_pwrbtn_boot_node` calls `vcactl boot`. Both programs build the text of a shell command, and neither quotes
the path.

A text is a list of bytes, written as characters. The files and the address parser of the host are parameters, as are
the shells, which read the files too.
-/

namespace Vcass.Vcactl.PowerButton

open Shell Config

def pathMax : ℕ := 4096

def ipMaxLen : ℕ := 15

def echo : List Char := "echo".toList

def vcaPwrbtnBootCmd : List Char := "pwrbtn_boot".toList

def vcactl : List Char := "vcactl".toList

def boot : List Char := "boot".toList

def msgFifoFile : List Char := "/var/run/vcactld".toList

def blockioBootDevName : List Char := "vcablk0".toList

/-- What the programs ask the host. `realpath` leaves something in its buffer when it fails, too. -/
structure Host where
  realpath : List Char → Bool × List Char
  fileExists : List Char → Bool
  isIpAddress : List Char → Bool

def decimal : ℤ → List Char
  | .ofNat n => Nat.toDigits 10 n
  | .negSucc n => '-' :: Nat.toDigits 10 (n + 1)

/-! ## `vcactl` -/

/-- The command for the shell. -/
def pwrbtnBootCmd (card cpu : ℤ) (actualPath : List Char) : List Char :=
  echo ++ ' ' :: vcaPwrbtnBootCmd ++ ' ' :: decimal card ++ ' ' :: decimal cpu ++ ' ' :: actualPath ++
    ' ' :: '>' :: ' ' :: msgFifoFile

/-- The command that is run, if one is. When `realpath` fails, there is a message only. -/
def pwrbtnBoot (h : Host) (autoBoot : Bool) (imgPath : List Char) (card cpu : ℤ) : Option (List Char) :=
  if autoBoot = false then none
  else if imgPath = [] then none
  else if imgPath = blockioBootDevName then some (pwrbtnBootCmd card cpu imgPath)
  else if h.fileExists (h.realpath imgPath).2 then some (pwrbtnBootCmd card cpu (h.realpath imgPath).2)
  else none

/-! ## The daemon -/

/-- A device on the stack of the daemon. The ids are read off its name. -/
structure VcaInfo where
  cardId : ℕ
  cpuId : ℕ
  cardId_lt : cardId < 10
  cpuId_lt : cpuId < 10
  deriving DecidableEq

def vcaName (card cpu : ℤ) : List Char := "vca".toList ++ decimal card ++ decimal cpu

def VcaInfo.name (vca : VcaInfo) : List Char := vcaName vca.cardId vca.cpuId

def vcaGetDeviceByCardAndCpu (devices : List VcaInfo) (card cpu : ℤ) : Option VcaInfo :=
  devices.find? fun vca ↦ vca.name = vcaName card cpu

/-- The directives of a format of `sscanf`. White space of any length matches any other. -/
inductive Directive
  | char (c : Char)
  | space
  | int
  | string (width : ℕ)
  deriving DecidableEq, Repr

inductive Value
  | int (n : ℤ)
  | string (s : List Char)
  deriving DecidableEq, Repr

/-- The values that are converted before the format ends or something does not match. -/
def sscanf : List Directive → List Char → List Value
  | [], _ => []
  | .char c :: ds, s =>
    match s with
    | [] => []
    | c' :: s => if c = c' then sscanf ds s else []
  | .space :: ds, s => sscanf ds (s.dropWhile isSpace)
  | .int :: ds, s =>
    match scanInt s with
    | none => []
    | some n => .int n :: sscanf ds ((splitSign (s.dropWhile isSpace)).2.dropWhile Char.isDigit)
  | .string width :: ds, s =>
    let text := ((s.dropWhile isSpace).takeWhile fun c ↦ !isSpace c).take width
    if text = [] then [] else .string text :: sscanf ds ((s.dropWhile isSpace).drop text.length)

def chars (s : List Char) : List Directive := s.map .char

def reinitFormat : List Directive := chars "vca_reinit_dev".toList ++ [Directive.space, .int, .space, .int, .space]

def pingFormat : List Directive :=
  chars "ping_daemon".toList ++ [Directive.space, .int, .space, .int, .space, .int, .space, .string ipMaxLen, .space]

def bootFormat : List Directive :=
  chars vcaPwrbtnBootCmd ++ [Directive.space, .int, .space, .int, .space, .string pathMax, .space]

/-- What comes of a line. -/
inductive Action
  | reinit (vca : VcaInfo)
  | ping (vca : VcaInfo) (start : Bool) (ip : List Char)
  | boot (vca : VcaInfo) (osImage : List Char)
  | configUse
  | badIp
  | badImage
  | invalidName (card cpu : ℤ)
  | notRecognized
  deriving DecidableEq

/-- The image of a boot command, if it exists. -/
def resolve (h : Host) (bootImage : List Char) : Option (List Char) :=
  if bootImage = blockioBootDevName then some blockioBootDevName
  else if (h.realpath bootImage).1 ∧ h.fileExists (h.realpath bootImage).2 then some (h.realpath bootImage).2
  else none

def parseReinit (devices : List VcaInfo) (card cpu : ℤ) : Action :=
  match vcaGetDeviceByCardAndCpu devices card cpu with
  | some vca => .reinit vca
  | none => .invalidName card cpu

def parsePing (h : Host) (devices : List VcaInfo) (on card cpu : ℤ) (ip : List Char) : Action :=
  if ip ≠ [] ∧ h.isIpAddress ip = false then .badIp
  else
    match vcaGetDeviceByCardAndCpu devices card cpu with
    | some vca => .ping vca (on = 1) ip
    | none => .invalidName card cpu

def parseBoot (h : Host) (devices : List VcaInfo) (card cpu : ℤ) (bootImage : List Char) : Action :=
  match resolve h bootImage with
  | none => .badImage
  | some path =>
    match vcaGetDeviceByCardAndCpu devices card cpu with
    | some vca => .boot vca path
    | none => .invalidName card cpu

def parseCommand (h : Host) (devices : List VcaInfo) (line : List Char) : Action :=
  match sscanf reinitFormat line with
  | [.int card, .int cpu] => parseReinit devices card cpu
  | _ =>
    match sscanf pingFormat line with
    | [.int on, .int card, .int cpu] => parsePing h devices on card cpu []
    | [.int on, .int card, .int cpu, .string ip] => parsePing h devices on card cpu ip
    | _ =>
      match sscanf bootFormat line with
      | [.int card, .int cpu, .string bootImage] => parseBoot h devices card cpu bootImage
      | _ => if line = "config_use".toList then .configUse else .notRecognized

/-- `snprintf` into the buffer of `vca_pwrbtn_boot_node`. -/
def toBuffer (text : List Char) : List Char := text.take (pathMax + 29)

def waitBiosCmd (vca : VcaInfo) : List Char :=
  toBuffer (vcactl ++ ' ' :: "wait-BIOS".toList ++ ' ' :: decimal vca.cardId ++ ' ' :: decimal vca.cpuId ++ ['\n'])

def bootCmd (vca : VcaInfo) (osImage : List Char) : List Char :=
  toBuffer (vcactl ++ ' ' :: boot ++ ' ' :: decimal vca.cardId ++ ' ' :: decimal vca.cpuId ++ ' ' :: osImage ++ ['\n'])

/-- The commands of the thread. `waited` says that the first was a success and nobody has cancelled the thread. -/
def vcaPwrbtnBootNode (vca : VcaInfo) (osImage : List Char) (waited : Bool) : List (List Char) :=
  if waited then [waitBiosCmd vca, bootCmd vca osImage] else [waitBiosCmd vca]

/-! ## The message -/

/-- An image as it is configured, and the file that it is. -/
structure Image (h : Host) where
  imgPath : List Char
  path : List Char
  imgPath_ne_nil : imgPath ≠ []
  imgPath_ne_dev : imgPath ≠ blockioBootDevName
  resolves : h.realpath imgPath = (true, path)
  canonical : h.realpath path = (true, path)
  absolute : path.head? = some '/'
  fileExists : h.fileExists path = true
  noNewline : '\n' ∉ path
  length_lt : path.length < pathMax

/-- What gets into the FIFO, if there is one `echo` and its output goes there. -/
def fifoText : List Shell.Command → Option (List Char)
  | [⟨name :: args, some file⟩] =>
    if name = echo ∧ file = msgFifoFile then some ([' '].intercalate args ++ ['\n']) else none
  | _ => none

/-- The path gets through both shells and `sscanf`. The second shell is that of the daemon. -/
structure RoundTrip (sh sh' : Interp) (h : Host) (devices : List VcaInfo) (vca : VcaInfo) (image : Image h) : Prop where
  message : ∃ cmd ∈ pwrbtnBoot h true image.imgPath vca.cardId vca.cpuId, ∃ line,
    fifoText (sh.run cmd) = some (line ++ ['\n']) ∧
      sscanf bootFormat line = [.int vca.cardId, .int vca.cpuId, .string image.path] ∧
        parseCommand h devices line = .boot vca image.path
  boot : ∀ cmd, vcaPwrbtnBootNode vca image.path true = [waitBiosCmd vca, cmd] →
    sh'.run cmd = [⟨[vcactl, PowerButton.boot, decimal vca.cardId, decimal vca.cpuId, image.path], none⟩]

/-- Neither a shell nor `sscanf` makes anything of the path. -/
def Inert (path : List Char) : Prop := ∀ c ∈ path, kind c = .literal ∧ isSpace c = false

/-- The shell might expand something in the path. -/
def Expands (path : List Char) : Prop := ∃ c ∈ path, kind c = .expansion ∨ c = '~'

instance (path : List Char) : Decidable (Inert path) :=
  List.decidableBAll (fun c ↦ kind c = .literal ∧ isSpace c = false) path

instance (path : List Char) : Decidable (Expands path) :=
  List.decidableBEx (fun c ↦ kind c = .expansion ∨ c = '~') path

section Numbers

variable {n : ℕ} {s : List Char} {c : Char} {ds : List Directive}

theorem decimal_natCast (n : ℕ) : decimal n = Nat.toDigits 10 n := rfl

theorem digitsVal_toDigits (n : ℕ) : digitsVal (Nat.toDigits 10 n) = n := Nat.ofDigitChars_ten_toDigits

theorem isDigit_decimal (hc : c ∈ Nat.toDigits 10 n) : c.isDigit = true :=
  Nat.isDigit_of_mem_toDigits (by decide) (by decide) hc

theorem sscanf_chars (w s : List Char) : sscanf (chars w ++ ds) (w ++ s) = sscanf ds s := by
  rw [chars]
  induction w with
  | nil => rfl
  | cons c cs ih =>
    rw [List.map_cons, List.cons_append, List.cons_append, sscanf]
    simpa using ih

theorem sscanf_space (hs : ∀ c ∈ s.head?, isSpace c = false) : sscanf (.space :: ds) (' ' :: s) = sscanf ds s := by
  rw [sscanf, List.dropWhile_cons_of_pos (by decide)]
  cases s with
  | nil => rfl
  | cons c s => rw [List.dropWhile_cons_of_neg (by simp [hs c rfl])]

theorem sscanf_int (n : ℕ) (hs : ∀ c ∈ s.head?, isSpace c = false) :
    sscanf (.int :: .space :: ds) (Nat.toDigits 10 n ++ ' ' :: s) = .int n :: sscanf ds s := by
  obtain ⟨c, cs, hcs⟩ := List.exists_cons_of_ne_nil (Nat.toDigits_ne_nil (n := n) (b := 10))
  have hdigits : ∀ c ∈ Nat.toDigits 10 n, c.isDigit = true := fun c hc ↦ isDigit_decimal hc
  have hc : c.isDigit = true := hdigits c (hcs ▸ List.mem_cons_self)
  have hstart : splitSign ((Nat.toDigits 10 n ++ ' ' :: s).dropWhile isSpace) =
      (false, Nat.toDigits 10 n ++ ' ' :: s) := by
    rw [hcs, List.cons_append, List.dropWhile_cons_of_neg (by simp [isSpace_of_isDigit hc]), splitSign_of_isDigit hc]
  have htake : (Nat.toDigits 10 n ++ ' ' :: s).takeWhile Char.isDigit = Nat.toDigits 10 n := by
    rw [List.takeWhile_append_of_pos hdigits, List.takeWhile_cons_of_neg (by decide), List.append_nil]
  have hdrop : (Nat.toDigits 10 n ++ ' ' :: s).dropWhile Char.isDigit = ' ' :: s := by
    rw [List.dropWhile_append_of_pos hdigits, List.dropWhile_cons_of_neg (by decide)]
  have hscan : scanInt (Nat.toDigits 10 n ++ ' ' :: s) = some (n : ℤ) := by
    rw [scanInt, hstart]
    simp [htake, digitsVal_toDigits, Nat.toDigits_ne_nil]
  rw [sscanf, hscan]
  simp only [hstart, hdrop]
  rw [sscanf_space hs]

end Numbers

section Devices

variable {vca vca' : VcaInfo} {devices : List VcaInfo}

theorem digitChar_injective {m n : ℕ} (hm : m < 10) (hn : n < 10) (h : m.digitChar = n.digitChar) : m = n := by
  have hall : ∀ m < 10, ∀ n < 10, m.digitChar = n.digitChar → m = n := by decide +kernel
  exact hall m hm n hn h

theorem decimal_of_lt {n : ℕ} (hn : n < 10) : decimal n = [n.digitChar] := Nat.toDigits_of_lt_base hn

theorem VcaInfo.name_injective (h : vca.name = vca'.name) : vca = vca' := by
  rw [name, name, vcaName, vcaName, decimal_of_lt vca.cardId_lt, decimal_of_lt vca.cpuId_lt,
    decimal_of_lt vca'.cardId_lt, decimal_of_lt vca'.cpuId_lt] at h
  simp only [List.append_assoc, List.append_cancel_left_eq, List.singleton_append, List.cons.injEq, and_true] at h
  obtain ⟨cardId, cpuId, hcard, hcpu⟩ := vca
  obtain ⟨cardId', cpuId', hcard', hcpu'⟩ := vca'
  obtain rfl := digitChar_injective hcard hcard' h.1
  obtain rfl := digitChar_injective hcpu hcpu' h.2
  rfl

theorem vcaGetDevice_of_mem (hvca : vca ∈ devices) :
    vcaGetDeviceByCardAndCpu devices vca.cardId vca.cpuId = some vca := by
  have hsome : (vcaGetDeviceByCardAndCpu devices vca.cardId vca.cpuId).isSome :=
    List.find?_isSome.mpr ⟨vca, hvca, decide_eq_true rfl⟩
  obtain ⟨v, hv⟩ := Option.isSome_iff_exists.mp hsome
  have hfound := List.find?_some (hv : devices.find? _ = some v)
  have hname : v.name = vca.name := of_decide_eq_true hfound
  rw [hv, VcaInfo.name_injective hname]

end Devices

section Line

variable {h : Host} {devices : List VcaInfo} {card cpu : ℕ} {path : List Char}

/-- The line that `pwrbtn_boot` means to send. -/
def bootLine (card cpu : ℤ) (path : List Char) : List Char :=
  vcaPwrbtnBootCmd ++ ' ' :: (decimal card ++ ' ' :: (decimal cpu ++ ' ' :: path))

theorem head_decimal (n : ℕ) (s : List Char) : ∀ c ∈ (decimal n ++ s).head?, isSpace c = false := by
  obtain ⟨c, cs, hcs⟩ := List.exists_cons_of_ne_nil (Nat.toDigits_ne_nil (n := n) (b := 10))
  have hdecimal : decimal n = c :: cs := hcs
  rw [hdecimal]
  rintro d ⟨⟩
  exact isSpace_of_isDigit (isDigit_decimal (hcs ▸ List.mem_cons_self))

theorem sscanf_bootLine (hpath : path.head? = some '/') :
    sscanf bootFormat (bootLine card cpu path) =
      [.int card, .int cpu, .string ((path.takeWhile fun c ↦ !isSpace c).take pathMax)] := by
  obtain ⟨tail, rfl⟩ := List.head?_eq_some_iff.mp hpath
  have hspace : ∀ c ∈ ('/' :: tail).head?, isSpace c = false := by
    rintro c ⟨⟩
    decide
  have htext : ((('/' :: tail).takeWhile fun c ↦ !isSpace c).take pathMax) ≠ [] := by
    rw [List.takeWhile_cons_of_pos (by decide), Ne, List.take_eq_nil_iff]
    simp [pathMax]
  rw [bootFormat, bootLine, sscanf_chars, sscanf_space (head_decimal card _), decimal_natCast,
    sscanf_int card (head_decimal cpu _), decimal_natCast, sscanf_int cpu hspace, sscanf,
    List.dropWhile_cons_of_neg (by decide)]
  simp only [if_neg htext]
  rw [sscanf, sscanf]

theorem parseCommand_bootLine (hpath : path.head? = some '/') :
    parseCommand h devices (bootLine card cpu path) =
      parseBoot h devices card cpu ((path.takeWhile fun c ↦ !isSpace c).take pathMax) := by
  have hreinit : sscanf reinitFormat (bootLine card cpu path) = [] := rfl
  have hping : sscanf pingFormat (bootLine card cpu path) = [] := rfl
  rw [parseCommand, hreinit]
  simp only
  rw [hping]
  simp only
  rw [sscanf_bootLine hpath]

/-- The path is taken as it is only if there is no white space in it. -/
theorem noSpace_of_takeWhile (hpath : (path.takeWhile fun c ↦ !isSpace c).take pathMax = path) :
    ∀ c ∈ path, isSpace c = false := by
  intro c hc
  rw [← hpath] at hc
  have hmem := List.mem_takeWhile_imp (List.mem_of_mem_take hc)
  simpa using hmem

end Line

/-! ## The shells -/

section Shells

variable {sh sh' : Interp} {h : Host} {devices : List VcaInfo} {vca : VcaInfo} {image : Image h}

theorem kind_of_isDigit {c : Char} (hc : c.isDigit = true) : kind c = .literal := by
  unfold kind
  split
  all_goals first
    | rfl
    | exact absurd hc (by decide)

theorem plain_decimal (n : ℕ) : Plain (decimal n) where
  ne_nil := Nat.toDigits_ne_nil
  literal := fun _ hc ↦ kind_of_isDigit (isDigit_decimal hc)
  head := by
    intro c hc
    have hdigit : c.isDigit = true := isDigit_decimal (List.mem_of_mem_head? hc)
    constructor
    · rintro rfl
      exact absurd hdigit (by decide)
    · rintro rfl
      exact absurd hdigit (by decide)

theorem Image.plain (image : Image h) (hlit : ∀ c ∈ image.path, kind c = .literal) : Plain image.path where
  ne_nil := by
    intro hnil
    have habs := image.absolute
    rw [hnil] at habs
    simp at habs
  literal := hlit
  head := by
    rw [image.absolute]
    rintro c ⟨⟩
    decide

/-- The words before the path. -/
def bootWords (vca : VcaInfo) : List (List Char) :=
  [vcactl, boot, decimal vca.cardId, decimal vca.cpuId]

def echoWords (vca : VcaInfo) : List (List Char) :=
  [echo, vcaPwrbtnBootCmd, decimal vca.cardId, decimal vca.cpuId]

theorem plain_bootWords (vca : VcaInfo) : ∀ w ∈ bootWords vca, Plain w := by
  simp only [bootWords, List.forall_mem_cons]
  exact ⟨by decide, by decide, plain_decimal _, plain_decimal _, by simp⟩

theorem plain_echoWords (vca : VcaInfo) : ∀ w ∈ echoWords vca, Plain w := by
  simp only [echoWords, List.forall_mem_cons]
  exact ⟨by decide, by decide, plain_decimal _, plain_decimal _, by simp⟩

theorem bootCmd_eq (image : Image h) :
    bootCmd vca image.path = spaced (bootWords vca) ++ (image.path ++ ['\n']) := by
  have htext : vcactl ++ ' ' :: boot ++ ' ' :: decimal vca.cardId ++ ' ' :: decimal vca.cpuId ++ ' ' :: image.path ++
      ['\n'] = spaced (bootWords vca) ++ (image.path ++ ['\n']) := by
    simp [spaced, bootWords]
  rw [bootCmd, toBuffer, htext, List.take_of_length_le]
  have hlt := image.length_lt
  have hvcactl : vcactl.length = 6 := rfl
  have hboot : boot.length = 4 := rfl
  simp [spaced, bootWords, decimal_of_lt vca.cardId_lt, decimal_of_lt vca.cpuId_lt, pathMax, hvcactl, hboot] at hlt ⊢
  omega

theorem pwrbtnBoot_eq (image : Image h) :
    pwrbtnBoot h true image.imgPath vca.cardId vca.cpuId =
      some (spaced (echoWords vca ++ [image.path]) ++ ('>' :: ' ' :: msgFifoFile)) := by
  have htext : pwrbtnBootCmd vca.cardId vca.cpuId image.path =
      spaced (echoWords vca ++ [image.path]) ++ ('>' :: ' ' :: msgFifoFile) := by
    simp [pwrbtnBootCmd, spaced, echoWords]
  rw [pwrbtnBoot, if_neg (by simp), if_neg image.imgPath_ne_nil, if_neg image.imgPath_ne_dev, image.resolves,
    if_pos image.fileExists, htext]

theorem fifoText_echo (vca : VcaInfo) (path : List Char) :
    fifoText [⟨echoWords vca ++ [path], some msgFifoFile⟩] = some (bootLine vca.cardId vca.cpuId path ++ ['\n']) := by
  have hline : [' '].intercalate [vcaPwrbtnBootCmd, decimal vca.cardId, decimal vca.cpuId, path] =
      bootLine vca.cardId vca.cpuId path := by
    simp [List.intercalate, List.intersperse, bootLine]
  rw [echoWords, List.cons_append, fifoText, if_pos ⟨rfl, rfl⟩]
  exact congrArg (fun line ↦ some (line ++ ['\n'])) hline

/-- A path that means nothing to the shell gets into the FIFO. -/
theorem run_echo (image : Image h) (hlit : ∀ c ∈ image.path, kind c = .literal) :
    fifoText (sh.run (spaced (echoWords vca ++ [image.path]) ++ ('>' :: ' ' :: msgFifoFile))) =
      some (bootLine vca.cardId vca.cpuId image.path ++ ['\n']) := by
  have hwords : ∀ w ∈ echoWords vca ++ [image.path], Plain w := by
    intro w hw
    rcases List.mem_append.mp hw with hw | hw
    · exact plain_echoWords vca w hw
    · exact List.mem_singleton.mp hw ▸ image.plain hlit
  have hname : ∃ v ∈ (echoWords vca ++ [image.path]).head?, IsName v := ⟨echo, rfl, by decide⟩
  rw [sh.run_redirected hname hwords (by decide), fifoText_echo]

theorem bootWords_name (vca : VcaInfo) (path : List Char) : ∃ v ∈ (bootWords vca ++ [path]).head?, IsName v :=
  ⟨vcactl, rfl, by decide⟩

/-- A path that gets through the second shell means nothing to it. -/
theorem literal_of_run (hpath : ¬Expands image.path) {cmd : Shell.Command} (hcmd : cmd ∈ sh.run (bootCmd vca image.path))
    (hmem : image.path ∈ cmd.words) : ∀ c ∈ image.path, kind c = .literal := by
  rw [bootCmd_eq] at hcmd
  have hlex : lex .plain none (spaced (bootWords vca) ++ (image.path ++ ['\n'])) =
      (spacedTokens (bootWords vca) ++ ·) <$> lex .plain none (image.path ++ ['\n']) :=
    lex_spaced (plain_bootWords vca)
  cases hrest : lex .plain none (image.path ++ ['\n']) with
  | error e =>
    rw [hrest] at hlex
    cases e with
    | unterminated =>
      rw [Interp.run, hlex] at hcmd
      simp at hcmd
    | expansion =>
      obtain ⟨c, hc, hkind⟩ := exists_of_expansion hrest
      rcases List.mem_append.mp hc with hc | hc
      · exact absurd ⟨c, hc, hkind⟩ hpath
      · rw [List.mem_singleton.mp hc] at hkind
        exact absurd hkind (by decide)
  | ok ts =>
    rw [hrest] at hlex
    have hword := sh.word_mem_of_run hlex hcmd hmem
    rcases List.mem_append.mp hword with hword | hword
    -- none of the words before it begins with a slash
    · have hbefore : image.path ∈ bootWords vca := by simpa [spacedTokens] using hword
      have hslash : ∀ w ∈ bootWords vca, w.head? ≠ some '/' := by
        intro w hw habs
        have hdigit (n : ℕ) (hn : w = decimal n) : False := by
          rw [hn] at habs
          exact absurd (isDigit_decimal (List.mem_of_mem_head? habs)) (by decide)
        simp only [bootWords, List.mem_cons, List.not_mem_nil, or_false] at hw
        rcases hw with rfl | rfl | hw | hw
        · exact absurd habs (by decide)
        · exact absurd habs (by decide)
        · exact hdigit _ hw
        · exact hdigit _ hw
      exact absurd image.absolute (hslash _ hbefore)
    · exact literal_of_mem_lex hrest hword (by simp)

theorem RoundTrip.of_inert (hvca : vca ∈ devices) (hpath : Inert image.path) : RoundTrip sh sh' h devices vca image where
  message := by
    have htake : (image.path.takeWhile fun c ↦ !isSpace c).take pathMax = image.path := by
      rw [List.takeWhile_eq_self_iff.mpr, List.take_of_length_le image.length_lt.le]
      intro c hc
      rw [(hpath c hc).2]
      rfl
    have hresolve : resolve h image.path = some image.path := by
      have hdev : image.path ≠ blockioBootDevName := by
        intro hdev
        exact absurd image.absolute (by rw [hdev]; decide)
      rw [resolve, if_neg hdev, image.canonical, if_pos ⟨rfl, image.fileExists⟩]
    refine ⟨_, pwrbtnBoot_eq image, bootLine vca.cardId vca.cpuId image.path, ?_, ?_, ?_⟩
    · exact run_echo image fun c hc ↦ (hpath c hc).1
    · rw [sscanf_bootLine image.absolute, htake]
    · rw [parseCommand_bootLine image.absolute, htake, parseBoot, hresolve]
      simp only [vcaGetDevice_of_mem hvca]
  boot := by
    intro cmd hcmd
    obtain rfl : bootCmd vca image.path = cmd := by simpa [vcaPwrbtnBootNode] using hcmd
    rw [bootCmd_eq]
    exact sh'.run_words (bootWords_name vca _) (plain_bootWords vca) (image.plain fun c hc ↦ (hpath c hc).1)

theorem RoundTrip.inert (hround : RoundTrip sh sh' h devices vca image) (hpath : ¬Expands image.path) :
    Inert image.path := by
  have hlit : ∀ c ∈ image.path, kind c = .literal := by
    have hrun := hround.boot (bootCmd vca image.path) rfl
    exact literal_of_run hpath (hrun ▸ List.mem_singleton_self _) (by simp)
  obtain ⟨cmd, hcmd, line, hline, hscan, -⟩ := hround.message
  rw [pwrbtnBoot_eq] at hcmd
  obtain rfl := Option.some_inj.mp hcmd
  rw [run_echo image hlit] at hline
  obtain rfl : bootLine vca.cardId vca.cpuId image.path = line := by simpa using hline
  rw [sscanf_bootLine image.absolute] at hscan
  have htake : (image.path.takeWhile fun c ↦ !isSpace c).take pathMax = image.path := by simpa using hscan
  exact fun c hc ↦ ⟨hlit c hc, noSpace_of_takeWhile htake c hc⟩

/-- An inert path arrives, whatever the shells are. A path that is not inert does not, unless an expansion makes it
so. -/
theorem roundTrip_iff (hvca : vca ∈ devices) :
    (Inert image.path → RoundTrip sh sh' h devices vca image) ∧
      (RoundTrip sh sh' h devices vca image → Inert image.path ∨ Expands image.path) := by
  constructor
  · exact RoundTrip.of_inert hvca
  · intro hround
    by_cases hpath : Expands image.path
    · exact .inr hpath
    · exact .inl (hround.inert hpath)

end Shells

/-! ## Two paths -/

/-- Every path is canonical and every file exists. -/
def anyFile : Host := ⟨fun path ↦ (true, path), fun _ ↦ true, fun _ ↦ false⟩

/-- A shell that runs simple commands only. -/
def simpleShell : Interp := ⟨fun _ ↦ [], fun _ ↦ [], by simp⟩

def imageAt (path : List Char) (hdev : path ≠ blockioBootDevName) (habs : path.head? = some '/') (hline : '\n' ∉ path)
    (hlt : path.length < pathMax) : Image anyFile where
  imgPath := path
  path := path
  imgPath_ne_nil := by
    rintro rfl
    simp at habs
  imgPath_ne_dev := hdev
  resolves := rfl
  canonical := rfl
  absolute := habs
  fileExists := rfl
  noNewline := hline
  length_lt := hlt

def vca01 : VcaInfo := ⟨0, 1, by decide, by decide⟩

theorem roundTrip_plain : RoundTrip simpleShell simpleShell anyFile [vca01] vca01
    (imageAt "/opt/os.img".toList (by decide) (by decide) (by decide) (by decide)) :=
  (roundTrip_iff (List.mem_singleton_self _)).1 (by decide)

/-- A blank in the path, whatever the shells are. -/
theorem roundTrip_blank : ¬∃ sh sh' : Interp, RoundTrip sh sh' anyFile [vca01] vca01
    (imageAt "/opt/my os.img".toList (by decide) (by decide) (by decide) (by decide)) := by
  rintro ⟨sh, sh', hround⟩
  have hinert := hround.inert (by decide)
  revert hinert
  decide

end Vcass.Vcactl.PowerButton
