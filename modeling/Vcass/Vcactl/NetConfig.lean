import Mathlib.Data.Bool.AllAny
import Vcass.Lib.ShellScript
import Vcass.Lib.Strtol
import Vcass.Vcactl.PowerButton

/-!
# The network script of a card

`make_net_config` puts values of the configuration into the text of a script, which the card runs as root. Each
value takes a way of its own: the address is checked, the mask becomes a number, the NFS values lose their quotes
and get quotes around them, the name of the node only gets quotes, and the gateway goes as it is.

The script is right if its tokens are those of its branch, with one word for each value. `as_data_iff` says which
values this asks for.
-/

namespace Vcass.Vcactl.NetConfig

open PowerButton (decimal)
open ShellScript Strtol

/-! ## Texts -/

/-- What is left to be replaced, with the number of characters that are part of an occurrence. -/
def replaceFrom (what by' : List Char) : ℕ → List Char → List Char
  | _, [] => []
  | skip + 1, _ :: cs => replaceFrom what by' skip cs
  | 0, c :: cs =>
    if what.isPrefixOf (c :: cs) then by' ++ replaceFrom what by' (what.length - 1) cs
    else c :: replaceFrom what by' 0 cs

/-- The search goes on behind what has been put in. -/
def replaceAll (str what by' : List Char) : List Char := if what = [] then str else replaceFrom what by' 0 str

/-- `str.find(what) != npos`. -/
def contains (what : List Char) : List Char → Bool
  | [] => what = []
  | c :: cs => what.isPrefixOf (c :: cs) || contains what cs

/-- `\x22` and `\x27` are the quotes. -/
def stripQuotes (phrase : List Char) : List Char := replaceAll (replaceAll phrase ['\x22'] []) ['\x27'] []

/-! ## The code -/

structure Config where
  ip : List Char
  mask : List Char
  gateway : List Char
  nfsServer : List Char
  nfsPath : List Char
  nodeName : List Char

structure Host where
  /-- `gethostname`, which may fail. -/
  hostname : Option (List Char)
  /-- `get_hostip`, empty if there is none. -/
  hostip : List Char
  /-- Addresses of four numbers with dots between them. -/
  isIpAddress : List Char → Bool
  isIpAddress_chars : ∀ ip, isIpAddress ip = true → ip ≠ [] ∧ ∀ c ∈ ip, c.isDigit = true ∨ c = '.'

/-- `%02x`. -/
def hexByte (b : UInt8) : List Char := [Nat.digitChar (b.toNat / 16), Nat.digitChar (b.toNat % 16)]

def macText (mac : Fin 6 → UInt8) : List Char :=
  hexByte (mac 0) ++ ':' :: hexByte (mac 1) ++ ':' :: hexByte (mac 2) ++ ':' :: hexByte (mac 3) ++
    ':' :: hexByte (mac 4) ++ ':' :: hexByte (mac 5)

variable (host : Host) (config : Config)

/-- The first placeholder of a path; nothing if the name of the host is not known. -/
def withHostname (path : List Char) : Option (List Char) :=
  if contains "%hostname".toList path then host.hostname.map (replaceAll path "%hostname".toList) else some path

/-- The second placeholder. -/
def withHostip (path : List Char) : Option (List Char) :=
  if contains "%hostip".toList path then
    if host.hostip = [] then none else some (replaceAll path "%hostip".toList host.hostip)
  else some path

/-- The placeholders that stand for others. -/
def withNode (path : List Char) : List Char :=
  let path := if contains "%nodename".toList path then replaceAll path "%nodename".toList "%s".toList else path
  if contains "%nodeip".toList path then replaceAll path "%nodeip".toList "%i".toList else path

/-- The result, and what has become of the path. Quotes are stripped at the end only. -/
def parseNfsPath (path : List Char) : Bool × List Char :=
  if path = [] then (true, path)
  else
    match withHostname host path with
    | none => (false, path)
    | some path =>
      match withHostip host path with
      | none => (false, path)
      | some path => (true, stripQuotes (withNode path))

/-- `strncasecmp(DHCP_STRING, ip, strlen(DHCP_STRING)) == 0`. -/
def isDhcp (ip : List Char) : Bool := (ip.take 4).map Char.toLower = "dhcp".toList

def scriptHead : List Char :=
  ("#!/bin/bash\ntrap '" ++ "echo -e \"Error $\x7bBASH_COMMAND\x7d\" >&2" ++ "' ERR\n" ++
    "INTERFACE=\x60basename /sys/class/vca/vca/device/vop-dev0255/virtio0/net/*\x60\n").toList

def setMtu : List Char := "ip link set $\x7bINTERFACE\x7d mtu 65521\n".toList

def setAddress (mac : List Char) : List Char := "ip link set dev $\x7bINTERFACE\x7d address ".toList ++ mac ++ ['\n']

def setUp : List Char := "ip link set dev $\x7bINTERFACE\x7d up\n".toList

/-- `echo` with a value in quotes, and where it goes. -/
def echoTo (value file : List Char) : List Char :=
  "echo ".toList ++ ('\x27' :: (value ++ '\x27' :: ' ' :: '>' :: ' ' :: file))

def echoNfs (nfsServer nfsPath : List Char) : List Char :=
  echoTo nfsServer "/etc/nfs_server\n".toList ++ echoTo nfsPath "/etc/nfs_path\n".toList

def runDhclient : List Char :=
  ("echo dhcp_in_progress > /sys/class/vca/vca/state\n" ++
    "if [ ! -d /var/lib/dhclient ] ; then mkdir -p /var/lib/dhclient ; fi\n" ++ "dhclient $\x7bINTERFACE\x7d\n" ++
    "if [ -s /var/lib/dhclient/dhclient.leases ]; then echo dhcp_done > /sys/class/vca/vca/state; else " ++
    "echo dhcp_error > /sys/class/vca/vca/state; fi\n").toList

def addAddress (ip : List Char) (imask : ℤ) : List Char :=
  "ip addr add ".toList ++ ip ++ '/' :: decimal imask ++ " dev $\x7bINTERFACE\x7d\n".toList

def addRoutes (gateway : List Char) : List Char :=
  "ip route add ".toList ++ (gateway ++ ' ' :: "dev $\x7bINTERFACE\x7d\nip route add default via ".toList) ++
    (gateway ++ ['\n'])

/-- The name of the node is not set if it is empty. -/
def setNodeName (nodeName : List Char) : List Char :=
  if nodeName = [] then [] else echoTo nodeName "/proc/sys/kernel/hostname \n".toList

/-- The script that is written, if one is. -/
def makeNetConfig (mac : Fin 6 → UInt8) : Option (List Char) :=
  let nfsServer := stripQuotes config.nfsServer
  -- a failure is only a warning
  let nfsPath := (parseNfsPath host config.nfsPath).2
  if isDhcp config.ip then
    some (scriptHead ++ (setMtu ++ setAddress (macText mac) ++ setUp ++ echoNfs nfsServer nfsPath ++ runDhclient) ++
      setNodeName config.nodeName)
  else if host.isIpAddress config.ip then
    let imask := atoi config.mask
    if imask < 0 ∨ 32 < imask then none
    else
      some (scriptHead ++ (setMtu ++ setAddress (macText mac) ++ addAddress config.ip imask ++ setUp ++
        addRoutes config.gateway ++ echoNfs nfsServer nfsPath) ++ setNodeName config.nodeName)
  else none

/-! ## The property -/

/-- Words with a blank between two of them. -/
def spaced (words : List (List Piece)) : List Token := (words.map Token.word).intersperse .blank

def line (words : List (List Piece)) : List Token := spaced words ++ [Token.newline]

/-- A line with the output in a file. -/
def redirected (words : List (List Piece)) (file : String) : List Token :=
  spaced words ++ [Token.blank, .op '>', .blank, .word (lits file.toList)]

/-- The words of a text, between which there is one blank. -/
def fixed (words : List String) : List (List Piece) := words.map fun w ↦ lits w.toList

def interface : List Piece := [.param "INTERFACE".toList]

/-- `[` is a character of patterns too. -/
def test (words : List String) : List Token := spaced ([.active '['] :: fixed (words ++ ["]"]))

def headTokens : List Token :=
  Token.newline ::
      line [lits "trap".toList, lits "echo -e \"Error $\x7bBASH_COMMAND\x7d\" >&2".toList, lits "ERR".toList] ++
    line [lits "INTERFACE=".toList ++
      [.command "basename /sys/class/vca/vca/device/vop-dev0255/virtio0/net/*".toList]]

def linkTokens (mac : List Char) : List Token :=
  line (fixed ["ip", "link", "set"] ++ interface :: fixed ["mtu", "65521"]) ++
    line (fixed ["ip", "link", "set", "dev"] ++ [interface, lits "address".toList, lits mac])

def upTokens : List Token := line (fixed ["ip", "link", "set", "dev"] ++ [interface, lits "up".toList])

def nfsTokens (nfsServer nfsPath : List Char) : List Token :=
  redirected [lits "echo".toList, lits nfsServer] "/etc/nfs_server" ++ [Token.newline] ++
    redirected [lits "echo".toList, lits nfsPath] "/etc/nfs_path" ++ [Token.newline]

def dhcpTokens : List Token :=
  redirected (fixed ["echo", "dhcp_in_progress"]) "/sys/class/vca/vca/state" ++ [Token.newline] ++
    spaced (fixed ["if"]) ++ Token.blank :: test ["!", "-d", "/var/lib/dhclient"] ++
    [Token.blank, Token.op ';', Token.blank] ++ spaced (fixed ["then", "mkdir", "-p", "/var/lib/dhclient"]) ++
    [Token.blank, Token.op ';', Token.blank] ++ line (fixed ["fi"]) ++ line [lits "dhclient".toList, interface] ++
    spaced (fixed ["if"]) ++ Token.blank :: test ["-s", "/var/lib/dhclient/dhclient.leases"] ++
    [Token.op ';', Token.blank] ++ spaced (fixed ["then"]) ++
    Token.blank :: redirected (fixed ["echo", "dhcp_done"]) "/sys/class/vca/vca/state" ++
    [Token.op ';', Token.blank] ++ spaced (fixed ["else"]) ++
    Token.blank :: redirected (fixed ["echo", "dhcp_error"]) "/sys/class/vca/vca/state" ++
    [Token.op ';', Token.blank] ++ line (fixed ["fi"])

def staticTokens (ip : List Char) (imask : ℤ) : List Token :=
  line (fixed ["ip", "addr", "add"] ++ [lits (ip ++ '/' :: decimal imask), lits "dev".toList, interface])

def routeTokens (gateway : List Char) : List Token :=
  line (fixed ["ip", "route", "add"] ++ [lits gateway, lits "dev".toList, interface]) ++
    line (fixed ["ip", "route", "add", "default", "via"] ++ [lits gateway])

def nodeNameTokens (nodeName : List Char) : List Token :=
  if nodeName = [] then []
  else redirected [lits "echo".toList, lits nodeName] "/proc/sys/kernel/hostname" ++ [Token.blank, .newline]

/-- The script with each value in its place. -/
def expectedTokens (mac : Fin 6 → UInt8) : List Token :=
  let nfs := nfsTokens (stripQuotes config.nfsServer) (parseNfsPath host config.nfsPath).2
  headTokens ++ (if isDhcp config.ip then linkTokens (macText mac) ++ upTokens ++ nfs ++ dhcpTokens
    else linkTokens (macText mac) ++ staticTokens config.ip (atoi config.mask) ++ upTokens ++
      routeTokens config.gateway ++ nfs) ++ nodeNameTokens config.nodeName

/-- The values are data in the script that is written. -/
def AsData (mac : Fin 6 → UInt8) : Prop :=
  ∀ script, makeNetConfig host config mac = some script →
    lex .plain none script = some (expectedTokens host config mac)

/-! ## When it holds -/

/-- The script has an address that is given, and a gateway. -/
def Static : Prop :=
  isDhcp config.ip = false ∧ host.isIpAddress config.ip = true ∧ 0 ≤ atoi config.mask ∧ atoi config.mask ≤ 32

/-- If the processing of the path fails, which leaves the quotes in it, there are no single quotes. -/
def NfsPathSafe (path : List Char) : Prop :=
  match withHostname host path with
  | none => '\x27' ∉ path
  | some path => contains "%hostip".toList path = true → host.hostip = [] → '\x27' ∉ path

/-- The gateway stands for itself without quotes, and the values between quotes have none in them. -/
structure Safe : Prop where
  gateway : Static host config → Shell.Plain config.gateway
  nodeName : '\x27' ∉ config.nodeName
  nfsPath : NfsPathSafe host config.nfsPath

/-! ## Quotes -/

variable {host config} {text rest path value gateway : List Char} {ts ts' : List Token} {mac : Fin 6 → UInt8} {q : Char}

theorem replaceAll_singleton (q : Char) (by' text : List Char) :
    replaceAll text [q] by' = text.flatMap fun c ↦ if c = q then by' else [c] := by
  rw [replaceAll, if_neg (List.cons_ne_nil _ _)]
  induction text with
  | nil => rfl
  | cons c text ih =>
    rw [List.flatMap_cons]
    by_cases hc : c = q
    · have hpre : [q].isPrefixOf (c :: text) = true := by simp [hc]
      rw [replaceFrom, if_pos hpre, if_pos hc]
      exact congrArg (by' ++ ·) ih
    · have hpre : ¬ [q].isPrefixOf (c :: text) = true := by simp [Ne.symm hc]
      rw [replaceFrom, if_neg hpre, if_neg hc, ih, List.singleton_append]

theorem notMem_stripQuotes (text : List Char) : '\x27' ∉ stripQuotes text := by
  rw [stripQuotes, replaceAll_singleton _ [] (replaceAll _ _ _), List.mem_flatMap]
  rintro ⟨c, -, hc⟩
  split_ifs at hc with hquote
  · cases hc
  · exact hquote (List.mem_singleton.mp hc).symm

/-- The quotes are in the path only if its processing has failed. -/
theorem notMem_parseNfsPath_iff : '\x27' ∉ (parseNfsPath host path).2 ↔ NfsPathSafe host path := by
  rw [parseNfsPath, NfsPathSafe]
  by_cases hpath : path = []
  · subst hpath
    have hname : withHostname host [] = some [] := rfl
    rw [if_pos rfl, hname]
    simp [contains]
  · rw [if_neg hpath]
    cases withHostname host path with
    | none => exact Iff.rfl
    | some path =>
      simp only [withHostip]
      split_ifs with hip hempty
      · exact ⟨fun h _ _ ↦ h, fun h ↦ h hip hempty⟩
      · exact ⟨fun _ _ h ↦ absurd h hempty, fun _ ↦ notMem_stripQuotes _⟩
      · exact ⟨fun _ h ↦ absurd h hip, fun _ ↦ notMem_stripQuotes _⟩

/-! ## Plain words -/

theorem plain_macText (mac : Fin 6 → UInt8) : Shell.Plain (macText mac) := by
  have hdigit : ∀ n < 16, Shell.kind (Nat.digitChar n) = .literal ∧ Nat.digitChar n ≠ '#' ∧ Nat.digitChar n ≠ '~' := by
    decide
  have hhigh : ∀ b : UInt8, b.toNat / 16 < 16 := fun b ↦ Nat.div_lt_of_lt_mul b.toNat_lt
  have hlow : ∀ b : UInt8, b.toNat % 16 < 16 := fun b ↦ Nat.mod_lt _ (by decide)
  have hcolon : Shell.kind ':' = .literal := rfl
  constructor
  · simp [macText, hexByte]
  · intro c hc
    simp only [macText, hexByte, List.cons_append, List.nil_append, List.mem_cons, List.not_mem_nil, or_false] at hc
    rcases hc with rfl | rfl | rfl | rfl | rfl | rfl | rfl | rfl | rfl | rfl | rfl | rfl | rfl | rfl | rfl | rfl | rfl
    all_goals first | exact hcolon | exact (hdigit _ (hhigh _)).1 | exact (hdigit _ (hlow _)).1
  · intro c hc
    obtain rfl : Nat.digitChar ((mac 0).toNat / 16) = c := by simpa [macText, hexByte] using hc
    exact (hdigit _ (hhigh _)).2

theorem plain_address (haddress : host.isIpAddress path = true) {imask : ℤ} (hmask : 0 ≤ imask) :
    Shell.Plain (path ++ '/' :: decimal imask) := by
  obtain ⟨hne, hchars⟩ := host.isIpAddress_chars path haddress
  have hdot : Shell.kind '.' = .literal ∧ '.' ≠ '#' ∧ '.' ≠ '~' := by decide
  have hdigit : ∀ c : Char, c.isDigit = true → Shell.kind c = .literal ∧ c ≠ '#' ∧ c ≠ '~' := by
    intro c hc
    refine ⟨PowerButton.kind_of_isDigit hc, ?_, ?_⟩
    · rintro rfl
      cases hc
    · rintro rfl
      cases hc
  have hchar : ∀ c ∈ path, Shell.kind c = .literal ∧ c ≠ '#' ∧ c ≠ '~' := by
    intro c hc
    rcases hchars c hc with h | rfl
    · exact hdigit c h
    · exact hdot
  obtain ⟨n, rfl⟩ := Int.eq_ofNat_of_zero_le hmask
  constructor
  · simp
  · intro c hc
    rcases List.mem_append.mp hc with hc | hc
    · exact (hchar c hc).1
    · rcases List.mem_cons.mp hc with rfl | hc
      · rfl
      · exact PowerButton.kind_of_isDigit (PowerButton.isDigit_decimal hc)
  · intro c hc
    obtain ⟨d, path, rfl⟩ := List.exists_cons_of_ne_nil hne
    obtain rfl : d = c := Option.some.inj hc
    exact (hchar d List.mem_cons_self).2

/-! ## The lines -/

variable {words words' : List (List Piece)} {w : List Char} {imask : ℤ} {file : String} {fileText : List Char}

theorem spaced_append (hwords : words ≠ []) (hwords' : words' ≠ []) :
    spaced (words ++ words') = spaced words ++ Token.blank :: spaced words' := by
  induction words with
  | nil => exact absurd rfl hwords
  | cons v words ih =>
    obtain ⟨v', words', rfl⟩ := List.exists_cons_of_ne_nil hwords'
    cases words with
    | nil => rfl
    | cons u words =>
      have htail := ih (List.cons_ne_nil _ _)
      simp only [spaced, List.cons_append, List.map_cons, List.intersperse_cons_cons] at htail ⊢
      rw [htail]

theorem line_append (hwords : words ≠ []) (hwords' : words' ≠ []) :
    line (words ++ words') = spaced words ++ Token.blank :: line words' := by
  rw [line, spaced_append hwords hwords', List.append_assoc]
  rfl

/-- A word at the end of a line. -/
theorem scan_word_newline (hw : Shell.Plain w) :
    scan .plain none (w ++ ['\n']) = some (line [lits w], .plain, none) := by
  have hnewline : scan .plain (some (lits w)) ['\n'] = some ([Token.word (lits w), .newline], .plain, none) := rfl
  rw [scan_append (scan_plain hw) hnewline]
  rfl

/-- A text is scanned as the list of its characters, which the kernel does not have to decode. -/
theorem scan_toList {m m' : Mode} {cur cur' : Word} {s : List Char} (hs : s = text)
    (h : scan m cur text = some (ts, m', cur')) : scan m cur s = some (ts, m', cur') := hs ▸ h

theorem toList_append {s t : String} {a b : List Char} (hs : s.toList = a) (ht : t.toList = b) :
    (s ++ t).toList = a ++ b := by
  rw [String.toList_append, hs, ht]

theorem scan_scriptHead : scan .plain none scriptHead = some (headTokens, .plain, none) :=
  scan_toList
    (toList_append (toList_append (toList_append String.toList_ofList String.toList_ofList) String.toList_ofList)
      String.toList_ofList)
    (by decide +kernel)

theorem scan_runDhclient : scan .plain none runDhclient = some (dhcpTokens, .plain, none) :=
  scan_toList
    (toList_append
      (toList_append (toList_append (toList_append String.toList_ofList String.toList_ofList) String.toList_ofList)
        String.toList_ofList)
      String.toList_ofList)
    (by decide +kernel)

theorem scan_setMtu : scan .plain none setMtu =
    some (line (fixed ["ip", "link", "set"] ++ interface :: fixed ["mtu", "65521"]), .plain, none) :=
  scan_toList String.toList_ofList rfl

theorem scan_setUp : scan .plain none setUp = some (upTokens, .plain, none) :=
  scan_toList String.toList_ofList rfl

theorem scan_dev (ps : List Piece) :
    scan .plain (some ps) " dev $\x7bINTERFACE\x7d\n".toList =
      some (line [ps, lits "dev".toList, interface], .plain, none) := by
  have hblank : scan .plain (some ps) [' '] = some ([Token.word ps, .blank], .plain, none) := rfl
  have hdev : scan .plain none "dev $\x7bINTERFACE\x7d\n".toList =
      some (line [lits "dev".toList, interface], .plain, none) :=
    scan_toList String.toList_ofList rfl
  have htext : " dev $\x7bINTERFACE\x7d\n".toList = [' '] ++ "dev $\x7bINTERFACE\x7d\n".toList := rfl
  rw [htext, scan_append hblank hdev]
  rfl

theorem scan_setAddress (hw : Shell.Plain w) :
    scan .plain none (setAddress w) =
      some (line (fixed ["ip", "link", "set", "dev"] ++ [interface, lits "address".toList, lits w]), .plain, none) := by
  have hfixed : scan .plain none "ip link set dev $\x7bINTERFACE\x7d address ".toList =
      some (spaced (fixed ["ip", "link", "set", "dev"] ++ [interface, lits "address".toList]) ++ [Token.blank],
        .plain, none) :=
    scan_toList String.toList_ofList rfl
  have htext : setAddress w = "ip link set dev $\x7bINTERFACE\x7d address ".toList ++ (w ++ ['\n']) :=
    List.append_assoc _ _ _
  have hwords : fixed ["ip", "link", "set", "dev"] ++ [interface, lits "address".toList, lits w] =
      (fixed ["ip", "link", "set", "dev"] ++ [interface, lits "address".toList]) ++ [lits w] :=
    (List.append_assoc _ [_, _] [_]).symm
  have hne : fixed ["ip", "link", "set", "dev"] ++ [interface, lits "address".toList] ≠ [] := List.cons_ne_nil _ _
  rw [htext, hwords, line_append hne (List.cons_ne_nil _ _), scan_append hfixed (scan_word_newline hw),
    List.append_assoc (spaced _), List.singleton_append]

theorem scan_link (hw : Shell.Plain w) :
    scan .plain none (setMtu ++ setAddress w) = some (linkTokens w, .plain, none) :=
  scan_append scan_setMtu (scan_setAddress hw)

theorem scan_addAddress (haddress : host.isIpAddress path = true) (hmask : 0 ≤ imask) :
    scan .plain none (addAddress path imask) = some (staticTokens path imask, .plain, none) := by
  have hplain := plain_address haddress hmask
  have hfixed : scan .plain none "ip addr add ".toList =
      some (spaced (fixed ["ip", "addr", "add"]) ++ [Token.blank], .plain, none) :=
    scan_toList String.toList_ofList rfl
  have hassoc : ∀ a b c d : List Char, a ++ b ++ c ++ d = a ++ (b ++ c ++ d) := by simp
  have htext : addAddress path imask =
      "ip addr add ".toList ++ (path ++ '/' :: decimal imask ++ " dev $\x7bINTERFACE\x7d\n".toList) := hassoc _ _ _ _
  have hne : fixed ["ip", "addr", "add"] ≠ [] := List.cons_ne_nil _ _
  rw [htext, staticTokens, line_append hne (List.cons_ne_nil _ _),
    scan_append hfixed (scan_append (scan_plain hplain) (scan_dev _)), List.nil_append, List.append_assoc (spaced _),
    List.singleton_append]

/-- A value between quotes with the output in a file. -/
theorem lex_echoTo_iff (hfile : scan .plain none (" > ".toList ++ fileText) =
    some ([Token.blank, .op '>', .blank, .word (lits file.toList)] ++ ts', .plain, none)) :
    lex .plain none (echoTo value fileText ++ rest) =
        some (redirected [lits "echo".toList, lits value] file ++ ts' ++ ts) ↔
      '\x27' ∉ value ∧ lex .plain none rest = some ts := by
  have hecho : scan .plain none "echo ".toList = some ([Token.word (lits "echo".toList), .blank], .plain, none) :=
    scan_toList String.toList_ofList rfl
  have hassoc : ∀ a b c d : List Char, a ++ ('\x27' :: (b ++ '\x27' :: ' ' :: '>' :: ' ' :: c)) ++ d =
      a ++ ('\x27' :: (b ++ '\x27' :: ' ' :: ('>' :: ' ' :: (c ++ d)))) := by
    intro a b c d
    simp only [List.append_assoc, List.cons_append]
  have htext : echoTo value fileText ++ rest =
      "echo ".toList ++ ('\x27' :: (value ++ '\x27' :: ' ' :: ('>' :: ' ' :: (fileText ++ rest)))) :=
    hassoc _ _ _ _
  have htokens : redirected [lits "echo".toList, lits value] file ++ ts' ++ ts =
      [Token.word (lits "echo".toList), .blank] ++ (Token.word (lits value) ::
        ([Token.blank, .op '>', .blank, .word (lits file.toList)] ++ ts' ++ ts)) := rfl
  have hrest : ' ' :: '>' :: ' ' :: (fileText ++ rest) = " > ".toList ++ fileText ++ rest := rfl
  rw [htext, htokens, lex_append_iff hecho, lex_quoted_iff, hrest, lex_append_iff hfile]

/-- The gateway comes twice, and with a blank behind it first. -/
theorem lex_addRoutes_iff :
    lex .plain none (addRoutes gateway ++ rest) = some (routeTokens gateway ++ ts) ↔
      Shell.Plain gateway ∧ lex .plain none rest = some ts := by
  have hadd : scan .plain none "ip route add ".toList =
      some (spaced (fixed ["ip", "route", "add"]) ++ [Token.blank], .plain, none) :=
    scan_toList String.toList_ofList rfl
  have hdefault : scan .plain none (' ' :: "dev $\x7bINTERFACE\x7d\nip route add default via ".toList) =
      some (Token.blank :: line [lits "dev".toList, interface] ++
        spaced (fixed ["ip", "route", "add", "default", "via"]) ++ [Token.blank], .plain, none) :=
    scan_toList (congrArg (' ' :: ·) String.toList_ofList) rfl
  have hassoc : ∀ a b c d e : List Char, a ++ (b ++ c) ++ (b ++ d) ++ e = a ++ (b ++ (c ++ (b ++ d ++ e))) := by simp
  have htext : addRoutes gateway ++ rest = "ip route add ".toList ++ (gateway ++
      (' ' :: "dev $\x7bINTERFACE\x7d\nip route add default via ".toList ++ (gateway ++ ['\n'] ++ rest))) :=
    hassoc _ _ _ _ _
  have hne : fixed ["ip", "route", "add"] ≠ [] := List.cons_ne_nil _ _
  have hne' : fixed ["ip", "route", "add", "default", "via"] ≠ [] := List.cons_ne_nil _ _
  have htokens : routeTokens gateway ++ ts = spaced (fixed ["ip", "route", "add"]) ++ [Token.blank] ++
      (Token.word (lits gateway) :: (Token.blank :: line [lits "dev".toList, interface] ++
        spaced (fixed ["ip", "route", "add", "default", "via"]) ++ [Token.blank] ++ (line [lits gateway] ++ ts))) := by
    rw [routeTokens, line_append hne (List.cons_ne_nil _ _), line_append hne' (List.cons_ne_nil _ _)]
    simp only [List.append_assoc, List.cons_append, List.nil_append]
    rfl
  rw [htext, htokens, lex_append_iff hadd, List.cons_append, lex_word_iff, ← List.cons_append, lex_append_iff hdefault]
  constructor
  · rintro ⟨hplain, h⟩
    exact ⟨hplain, (lex_append_iff (scan_word_newline hplain)).mp h⟩
  · rintro ⟨hplain, h⟩
    exact ⟨hplain, (lex_append_iff (scan_word_newline hplain)).mpr h⟩

theorem lex_echoNfs_iff {nfsServer nfsPath : List Char} :
    lex .plain none (echoNfs nfsServer nfsPath ++ rest) = some (nfsTokens nfsServer nfsPath ++ ts) ↔
      ('\x27' ∉ nfsServer ∧ '\x27' ∉ nfsPath) ∧ lex .plain none rest = some ts := by
  have hserver : scan .plain none (" > ".toList ++ "/etc/nfs_server\n".toList) =
      some ([Token.blank, .op '>', .blank, .word (lits "/etc/nfs_server".toList)] ++ [Token.newline], .plain,
        none) :=
    scan_toList (congrArg₂ (· ++ ·) String.toList_ofList String.toList_ofList) rfl
  have hpath : scan .plain none (" > ".toList ++ "/etc/nfs_path\n".toList) =
      some ([Token.blank, .op '>', .blank, .word (lits "/etc/nfs_path".toList)] ++ [Token.newline], .plain, none) :=
    scan_toList (congrArg₂ (· ++ ·) String.toList_ofList String.toList_ofList) rfl
  have htokens : nfsTokens nfsServer nfsPath ++ ts =
      redirected [lits "echo".toList, lits nfsServer] "/etc/nfs_server" ++ [Token.newline] ++
        (redirected [lits "echo".toList, lits nfsPath] "/etc/nfs_path" ++ [Token.newline] ++ ts) := by
    simp only [nfsTokens, List.append_assoc]
  have htext : echoNfs nfsServer nfsPath ++ rest =
      echoTo nfsServer "/etc/nfs_server\n".toList ++ (echoTo nfsPath "/etc/nfs_path\n".toList ++ rest) :=
    List.append_assoc _ _ _
  rw [htext, htokens, lex_echoTo_iff hserver, lex_echoTo_iff hpath, and_assoc]

theorem lex_setNodeName_iff {nodeName : List Char} :
    lex .plain none (setNodeName nodeName) = some (nodeNameTokens nodeName) ↔ '\x27' ∉ nodeName := by
  have hfile : scan .plain none (" > ".toList ++ "/proc/sys/kernel/hostname \n".toList) =
      some ([Token.blank, .op '>', .blank, .word (lits "/proc/sys/kernel/hostname".toList)] ++ [Token.blank, .newline],
        .plain, none) :=
    scan_toList (congrArg₂ (· ++ ·) String.toList_ofList String.toList_ofList) rfl
  rw [setNodeName, nodeNameTokens]
  split_ifs with hempty
  · rw [hempty]
    exact ⟨fun _ ↦ List.not_mem_nil, fun _ ↦ rfl⟩
  · have hiff : _ ↔ '\x27' ∉ nodeName ∧ lex .plain none [] = some [] := lex_echoTo_iff hfile
    rw [List.append_nil, List.append_nil] at hiff
    exact hiff.trans (and_iff_left rfl)

/-! ## The script -/

theorem dhcp_iff (hdhcp : isDhcp config.ip = true) :
    AsData host config mac ↔ '\x27' ∉ (parseNfsPath host config.nfsPath).2 ∧ '\x27' ∉ config.nodeName := by
  have hscript : makeNetConfig host config mac = some (scriptHead ++ (setMtu ++ setAddress (macText mac) ++ setUp ++
      echoNfs (stripQuotes config.nfsServer) (parseNfsPath host config.nfsPath).2 ++ runDhclient) ++
      setNodeName config.nodeName) := if_pos hdhcp
  have hassoc : ∀ a b c d e f g : List Char, a ++ (b ++ c ++ d ++ e ++ f) ++ g =
      a ++ ((b ++ c) ++ (d ++ (e ++ (f ++ g)))) := by simp
  have hassoc' : ∀ a b c d e f : List Token, a ++ (b ++ c ++ d ++ e) ++ f = a ++ (b ++ (c ++ (d ++ (e ++ f)))) := by
    simp
  rw [AsData, hscript]
  simp only [Option.some.injEq, forall_eq', expectedTokens, hdhcp, if_true]
  rw [hassoc, hassoc', lex_append_iff scan_scriptHead, lex_append_iff (scan_link (plain_macText mac)),
    lex_append_iff scan_setUp, lex_echoNfs_iff, lex_append_iff scan_runDhclient, lex_setNodeName_iff]
  exact and_congr_left' (and_iff_right (notMem_stripQuotes _))

theorem static_iff (hstatic : Static host config) :
    AsData host config mac ↔ Shell.Plain config.gateway ∧ '\x27' ∉ (parseNfsPath host config.nfsPath).2 ∧
      '\x27' ∉ config.nodeName := by
  obtain ⟨hdhcp, haddress, hlow, hhigh⟩ := hstatic
  have hmask : ¬ (atoi config.mask < 0 ∨ 32 < atoi config.mask) := by omega
  have hscript : makeNetConfig host config mac = some (scriptHead ++ (setMtu ++ setAddress (macText mac) ++
      addAddress config.ip (atoi config.mask) ++ setUp ++ addRoutes config.gateway ++
      echoNfs (stripQuotes config.nfsServer) (parseNfsPath host config.nfsPath).2) ++
      setNodeName config.nodeName) := by
    have hnot : ¬ isDhcp config.ip = true := by rw [hdhcp]; decide
    exact (if_neg hnot).trans ((if_pos haddress).trans (if_neg hmask))
  have hassoc : ∀ a b c d e f g h : List Char, a ++ (b ++ c ++ d ++ e ++ f ++ g) ++ h =
      a ++ ((b ++ c) ++ (d ++ (e ++ (f ++ (g ++ h))))) := by simp
  have hassoc' : ∀ a b c d e f g : List Token, a ++ (b ++ c ++ d ++ e ++ f) ++ g =
      a ++ (b ++ (c ++ (d ++ (e ++ (f ++ g))))) := by simp
  rw [AsData, hscript]
  simp only [Option.some.injEq, forall_eq', expectedTokens, hdhcp, Bool.false_eq_true, if_false]
  rw [hassoc, hassoc', lex_append_iff scan_scriptHead, lex_append_iff (scan_link (plain_macText mac)),
    lex_append_iff (scan_addAddress haddress hlow), lex_append_iff scan_setUp, lex_addRoutes_iff, lex_echoNfs_iff,
    lex_setNodeName_iff]
  exact and_congr_right' (and_congr_left' (and_iff_right (notMem_stripQuotes _)))

theorem makeNetConfig_eq_none (hdhcp : ¬ isDhcp config.ip = true) (hstatic : ¬ Static host config) :
    makeNetConfig host config mac = none := by
  by_cases haddress : host.isIpAddress config.ip = true
  · have hmask : atoi config.mask < 0 ∨ 32 < atoi config.mask := by
      by_contra hrange
      push Not at hrange
      exact hstatic ⟨Bool.eq_false_iff.mpr hdhcp, haddress, hrange.1, hrange.2⟩
    exact (if_neg hdhcp).trans ((if_pos haddress).trans (if_pos hmask))
  · exact (if_neg hdhcp).trans (if_neg haddress)

/-- The values are data if and only if no script is written or the ones that nothing protects do not need it. -/
theorem as_data_iff (host : Host) (config : Config) (mac : Fin 6 → UInt8) :
    AsData host config mac ↔ (isDhcp config.ip = true ∨ Static host config → Safe host config) := by
  by_cases hdhcp : isDhcp config.ip = true
  · have hstatic : ¬ Static host config := fun h ↦ Bool.false_ne_true (h.1.symm.trans hdhcp)
    rw [dhcp_iff hdhcp, notMem_parseNfsPath_iff]
    constructor
    · rintro ⟨hpath, hname⟩ -
      exact ⟨fun h ↦ absurd h hstatic, hname, hpath⟩
    · intro h
      have hsafe := h (Or.inl hdhcp)
      exact ⟨hsafe.nfsPath, hsafe.nodeName⟩
  · by_cases hstatic : Static host config
    · rw [static_iff hstatic, notMem_parseNfsPath_iff]
      constructor
      · rintro ⟨hgateway, hpath, hname⟩ -
        exact ⟨fun _ ↦ hgateway, hname, hpath⟩
      · intro h
        have hsafe := h (Or.inr hstatic)
        exact ⟨hsafe.gateway hstatic, hsafe.nfsPath, hsafe.nodeName⟩
    · have hnone : makeNetConfig host config mac = none := makeNetConfig_eq_none hdhcp hstatic
      constructor
      · rintro - (h | h)
        · exact absurd h hdhcp
        · exact absurd h hstatic
      · intro _ script hscript
        rw [hnone] at hscript
        cases hscript

/-- A host that knows one address. -/
def oneAddress : Host where
  hostname := some "host".toList
  hostip := "172.31.1.254".toList
  isIpAddress ip := ip = "172.31.1.1".toList
  isIpAddress_chars := by
    intro ip h
    rw [of_decide_eq_true h]
    exact ⟨by decide +kernel, List.all_iff_forall_prop.mp (by decide +kernel)⟩

/-- The gateway has a command behind it. -/
theorem gateway_not_data :
    ¬ AsData oneAddress ⟨"172.31.1.1".toList, "24".toList, "172.31.1.254;reboot".toList, [], [], []⟩ fun _ ↦ 0 := by
  have hstatic : Static oneAddress ⟨"172.31.1.1".toList, "24".toList, "172.31.1.254;reboot".toList, [], [], []⟩ :=
    ⟨by decide +kernel, by decide +kernel, by decide +kernel, by decide +kernel⟩
  intro h
  have hplain := ((static_iff hstatic).mp h).1
  revert hplain
  decide +kernel

end Vcass.Vcactl.NetConfig
