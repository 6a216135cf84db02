import Servd.ServerConfigFile
import Servd.TextHeader

/-!
What `load_config` does with a file. The settings of the lines are made one after the
other up to the first line that throws, so a failed call leaves the settings of the lines
before it behind. A file in the documented format is read back exactly; on other files a
value may be taken for a number that is not in the file.
-/
namespace Servd

namespace Setting

def tcpPort : Setting → Option (UInt16 × ProtocolMode)
  | .tcp port => some (port, .binary)
  | .udp _ | .unix _ | .maxClients _ | .logLevel _ | .logFile _ => none

def udpPort : Setting → Option UInt16
  | .udp port => some port
  | .tcp _ | .unix _ | .maxClients _ | .logLevel _ | .logFile _ => none

def unixPath : Setting → Option (Bytes × ProtocolMode)
  | .unix path => some (path, .binary)
  | .tcp _ | .udp _ | .maxClients _ | .logLevel _ | .logFile _ => none

def limit : Setting → Option UInt64
  | .maxClients max => some max
  | .tcp _ | .udp _ | .unix _ | .logLevel _ | .logFile _ => none

end Setting

/-- The configuration with the ports and paths of a list of settings behind those it has, and the
last limit of the list, if there is one. -/
def ServerConfig.extend (c : ServerConfig) (settings : List Setting) : ServerConfig where
  tcpPorts := c.tcpPorts ++ settings.filterMap Setting.tcpPort
  udpPorts := c.udpPorts ++ settings.filterMap Setting.udpPort
  unixPaths := c.unixPaths ++ settings.filterMap Setting.unixPath
  maxClients := (settings.filterMap Setting.limit).getLast?.getD c.maxClients

section Apply

variable {opens : Bytes → Bool}

theorem extend_nil (c : ServerConfig) : c.extend [] = c := by
  simp [ServerConfig.extend]

theorem extend_cons (s : Loaded) (setting : Setting) (settings : List Setting) :
    s.server.extend (setting :: settings) = (setting.apply opens s).server.extend settings := by
  cases setting with
  | tcp _ | udp _ | unix _ | logLevel _ | logFile _ =>
      simp [ServerConfig.extend, Setting.apply, List.filterMap_cons, Setting.tcpPort,
        Setting.udpPort, Setting.unixPath, Setting.limit, ServerConfig.enableTcp,
        ServerConfig.enableUdp, ServerConfig.enableUnixSocket]
  | maxClients max =>
      simp [ServerConfig.extend, Setting.apply, List.filterMap_cons, Setting.tcpPort,
        Setting.udpPort, Setting.unixPath, Setting.limit, ServerConfig.setMaxClients,
        List.getLast?_cons]

theorem server_foldl_apply (opens : Bytes → Bool) (settings : List Setting) (s : Loaded) :
    (settings.foldl (Setting.apply opens) s).server = s.server.extend settings := by
  induction settings generalizing s with
  | nil => exact (extend_nil s.server).symm
  | cons setting settings ih => rw [List.foldl_cons, ih, extend_cons]

end Apply

/-- The settings that the loop makes, each with the line it comes from. -/
def settingsOf : List Bytes → List (Bytes × Setting)
  | [] => []
  | line :: rest =>
      match parseLine line with
      | .error _ => []
      | .ok none => settingsOf rest
      | .ok (some setting) => (line, setting) :: settingsOf rest

/-- The lines that the loop gets through. -/
def linesRead (lines : List Bytes) : List Bytes :=
  lines.takeWhile fun line => (parseLine line).isOk

section Loop

variable {opens : Bytes → Bool} {line : Bytes} {lines : List Bytes} {setting : Setting}

theorem loadLines_fst (opens : Bytes → Bool) (s : Loaded) (lines : List Bytes) :
    (loadLines opens s lines).1 =
      ((settingsOf lines).map Prod.snd).foldl (Setting.apply opens) s := by
  induction lines generalizing s with
  | nil => rfl
  | cons line lines ih =>
      rw [loadLines, settingsOf]
      cases parseLine line with
      | error e => rfl
      | ok parsed =>
          cases parsed with
          | none => exact ih s
          | some setting => exact ih (setting.apply opens s)

theorem settingsOf_append {before : List Bytes} (h : ∀ l ∈ before, ∃ x, parseLine l = .ok x)
    (rest : List Bytes) : settingsOf (before ++ rest) = settingsOf before ++ settingsOf rest := by
  induction before with
  | nil => rfl
  | cons line before ih =>
      obtain ⟨parsed, hline⟩ := h line List.mem_cons_self
      have hrest := ih fun l hl => h l (List.mem_cons_of_mem _ hl)
      rw [List.cons_append, settingsOf, settingsOf, hline]
      cases parsed with
      | none => exact hrest
      | some setting => rw [hrest, List.cons_append]

theorem settingsOf_cons_error {e : Exc} (h : parseLine line = .error e) (rest : List Bytes) :
    settingsOf (line :: rest) = [] := by
  rw [settingsOf, h]

/-- The loop throws at the first line that does. -/
theorem loadLines_threw {s : Loaded} {e : Exc} (h : (loadLines opens s lines).2 = .error e) :
    ∃ before bad after, lines = before ++ bad :: after ∧
      (∀ l ∈ before, ∃ x, parseLine l = .ok x) ∧ parseLine bad = .error e := by
  induction lines generalizing s with
  | nil => cases h
  | cons line lines ih =>
      rw [loadLines] at h
      cases hline : parseLine line with
      | error e' =>
          rw [hline] at h
          cases h
          exact ⟨[], line, lines, rfl, by simp, hline⟩
      | ok parsed =>
          have hrest : ∃ t, (loadLines opens t lines).2 = .error e := by
            rw [hline] at h
            cases parsed with
            | none => exact ⟨s, h⟩
            | some setting => exact ⟨setting.apply opens s, h⟩
          obtain ⟨t, ht⟩ := hrest
          obtain ⟨before, bad, after, rfl, hbefore, hbad⟩ := ih ht
          refine ⟨line :: before, bad, after, rfl, ?_, hbad⟩
          intro l hl
          cases List.mem_cons.mp hl with
          | inl heq => exact ⟨parsed, heq ▸ hline⟩
          | inr hl => exact hbefore l hl

theorem loadLines_threw_of_mem {s : Loaded} {e : Exc} (hmem : line ∈ lines)
    (hline : parseLine line = .error e) : ∃ e, (loadLines opens s lines).2 = .error e := by
  induction lines generalizing s with
  | nil => cases hmem
  | cons first lines ih =>
      rw [loadLines]
      cases hfirst : parseLine first with
      | error e' => exact ⟨e', rfl⟩
      | ok parsed =>
          have hmem' : line ∈ lines := by
            cases List.mem_cons.mp hmem with
            | inl heq =>
                rw [heq, hfirst] at hline
                cases hline
            | inr hmem' => exact hmem'
          cases parsed with
          | none => exact ih hmem'
          | some setting => exact ih hmem'

/-- A line that the loop does not get through is behind one that throws, or is that line. -/
theorem mem_linesRead (h : line ∈ lines) :
    line ∈ linesRead lines ∨ ∃ bad ∈ lines, ∃ e, parseLine bad = .error e := by
  by_cases hall : ∀ l ∈ lines, (parseLine l).isOk = true
  · left
    rw [linesRead, List.takeWhile_eq_self_iff.mpr hall]
    exact h
  · right
    obtain ⟨bad, hnot⟩ := not_forall.mp hall
    obtain ⟨hbad, hthrows⟩ := Classical.not_imp.mp hnot
    cases hparse : parseLine bad with
    | error e => exact ⟨bad, hbad, e, hparse⟩
    | ok _ => exact absurd (by rw [hparse]; rfl) hthrows

theorem mem_settingsOf_iff :
    (line, setting) ∈ settingsOf lines ↔
      line ∈ linesRead lines ∧ parseLine line = .ok (some setting) := by
  induction lines with
  | nil => simp [settingsOf, linesRead]
  | cons first lines ih =>
      rw [settingsOf, linesRead, List.takeWhile_cons]
      cases hfirst : parseLine first with
      | error e => simp [Except.isOk, Except.toBool]
      | ok parsed =>
          simp only [Except.isOk, Except.toBool, if_true, List.mem_cons]
          cases parsed with
          | none =>
              rw [ih]
              constructor
              · intro h
                exact ⟨.inr h.1, h.2⟩
              · intro h
                obtain ⟨heq | hmem, hparse⟩ := h
                · rw [heq, hfirst] at hparse
                  cases hparse
                · exact ⟨hmem, hparse⟩
          | some made =>
              rw [List.mem_cons, ih]
              constructor
              · intro h
                cases h with
                | inl heq =>
                    cases heq
                    exact ⟨.inl rfl, hfirst⟩
                | inr h => exact ⟨.inr h.1, h.2⟩
              · intro h
                obtain ⟨heq | hmem, hparse⟩ := h
                · subst heq
                  rw [hfirst] at hparse
                  cases hparse
                  exact .inl rfl
                · exact .inr ⟨hmem, hparse⟩

end Loop

/-- If `load_config` throws, the ports, the paths and the limit are what they were before the call and
the settings of the lines before the first line that throws, in their order. The line that
throws and those behind it have no effect, and neither has a file that cannot be opened. -/
theorem loadConfig_threw (opens : Bytes → Bool) (s s' : Loaded) (path : String)
    (content : Option Bytes) (e : Exc) (h : loadConfig opens s path content = (s', .error e)) :
    (content = none ∧ s'.server = s.server) ∨
      ∃ bytes before bad after, content = some bytes ∧
        Text.lines newline bytes = before ++ bad :: after ∧
        (∀ l ∈ before, ∃ x, parseLine l = .ok x) ∧ parseLine bad = .error e ∧
        s'.server = s.server.extend ((settingsOf before).map Prod.snd) := by
  cases content with
  | none =>
      cases h
      exact .inl ⟨rfl, rfl⟩
  | some bytes =>
      right
      rw [loadConfig] at h
      have hfst := loadLines_fst opens s (Text.lines newline bytes)
      have hsnd : (loadLines opens s (Text.lines newline bytes)).2 = .error e := by rw [h]
      obtain ⟨before, bad, after, hlines, hbefore, hbad⟩ := loadLines_threw hsnd
      refine ⟨bytes, before, bad, after, rfl, hlines, hbefore, hbad, ?_⟩
      rw [h, hlines, settingsOf_append hbefore, settingsOf_cons_error hbad, List.append_nil] at hfst
      have hserver := server_foldl_apply opens ((settingsOf before).map Prod.snd) s
      rw [← hfst] at hserver
      exact hserver

/-- The second line has a bad value; the port of the first one is kept. -/
theorem loadConfig_threw_second :
    ∃ s' before, loadConfig (fun _ => true) {} "servd.conf" (some (ascii "tcp=80\nudp=x\ntcp=81")) =
        (s', .error (.std "stoi")) ∧ s'.server.tcpPorts = [(80, .binary)] ∧
      s'.server = ({} : ServerConfig).extend ((settingsOf before).map Prod.snd) := by
  obtain ⟨hnone, -⟩ | ⟨_, before, _, _, -, -, -, -, hserver⟩ :=
    loadConfig_threw (fun _ => true) {} _ "servd.conf" (some (ascii "tcp=80\nudp=x\ntcp=81"))
      (.std "stoi") rfl
  · cases hnone
  · exact ⟨_, before, rfl, by decide, hserver⟩

/-- The call throws and the port of the first line has been added. -/
theorem not_loadConfig_atomic :
    ¬ ∀ (opens : Bytes → Bool) (s : Loaded) (path : String) (content : Option Bytes) (e : Exc),
      (loadConfig opens s path content).2 = .error e →
        (loadConfig opens s path content).1.server = s.server := by
  intro h
  have hserver := h (fun _ => true) {} "servd.conf" (some (ascii "tcp=80\nudp=x")) (.std "stoi") rfl
  exact absurd hserver (by decide)

section Values

variable {key value : Bytes} {n : Nat}

theorem leadingNumeral_of_numeral (h : Numeral value n) :
    leadingNumeral value = some (false, n) := by
  obtain ⟨hstart, hplus, hminus⟩ := h.unsigned []
  rw [List.append_nil] at hstart hplus hminus
  have hdigits : value.takeWhile isDigit = value := List.takeWhile_eq_self_iff.mpr h.digit
  simp [leadingNumeral, hstart, hplus, hminus, hdigits, h.nonempty, h.value]

theorem stoi_of_numeral (h : Numeral value n) (hn : n < 2 ^ 31) : stoi value = .ok n := by
  rw [stoi, leadingNumeral_of_numeral h]
  simp only [Bool.false_eq_true, if_false]
  rw [if_neg (by omega)]

theorem stoul_of_numeral {m : UInt64} (h : Numeral value m.toNat) : stoul value = .ok m := by
  have hm := m.toNat_lt
  rw [stoul, leadingNumeral_of_numeral h]
  simp only [Bool.false_eq_true, if_false]
  rw [if_neg (by omega), UInt64.ofNat_toNat]

theorem numeral_of_digits (hne : value ≠ []) (hall : value.all isDigit = true) :
    Numeral value (digitsValue value) :=
  ⟨hne, List.all_eq_true.mp hall, rfl⟩

/-- Neither conversion accepts an empty text. -/
theorem ne_nil_of_stoi {n : Int} (h : stoi value = .ok n) : value ≠ [] := by
  rintro rfl
  cases h

theorem ne_nil_of_stoul {m : UInt64} (h : stoul value = .ok m) : value ≠ [] := by
  rintro rfl
  cases h

/-- A value of digits that `stoi` accepts, as a port. -/
theorem numeral_ofInt {n : Int} (h : stoi value = .ok n) (hall : value.all isDigit = true)
    (hfits : digitsValue value < 2 ^ 16) : Numeral value (UInt16.ofInt n).toNat := by
  have hnumeral := numeral_of_digits (ne_nil_of_stoi h) hall
  rw [stoi_of_numeral hnumeral (by omega)] at h
  cases h
  have hport : (UInt16.ofInt (digitsValue value : Int)).toNat = digitsValue value := by
    rw [UInt16.ofInt, UInt16.toNat_ofNat']
    omega
  rw [hport]
  exact hnumeral

theorem numeral_of_stoul {m : UInt64} (h : stoul value = .ok m) (hall : value.all isDigit = true) :
    Numeral value m.toNat := by
  have hnumeral := numeral_of_digits (ne_nil_of_stoul h) hall
  rw [stoul, leadingNumeral_of_numeral hnumeral] at h
  simp only [Bool.false_eq_true, if_false] at h
  split at h
  · cases h
  · rename_i hfits
    cases h
    rw [UInt64.toNat_ofNat', Nat.mod_eq_of_lt (by omega)]
    exact hnumeral

end Values

def knownKeys : List Bytes :=
  [ascii "tcp", ascii "udp", ascii "unix", ascii "max_clients", ascii "log_level", ascii "log_file"]

section Keys

variable {key value : Bytes} {parsed : Option Setting}

theorem parseSetting_tcp (value : Bytes) : parseSetting (ascii "tcp") value =
    (stoi value).map fun n => some (.tcp (UInt16.ofInt n)) := rfl

theorem parseSetting_udp (value : Bytes) : parseSetting (ascii "udp") value =
    (stoi value).map fun n => some (.udp (UInt16.ofInt n)) := rfl

theorem parseSetting_maxClients (value : Bytes) : parseSetting (ascii "max_clients") value =
    (stoul value).map fun n => some (.maxClients n) := rfl

theorem exists_of_map_eq_ok {α β : Type} {r : Except Exc α} {f : α → β} {b : β}
    (h : r.map f = .ok b) : ∃ a, r = .ok a ∧ f a = b := by
  cases r with
  | error e => cases h
  | ok a => exact ⟨a, rfl, Except.ok.inj h⟩

theorem exists_stoi_of_parseSetting (hkey : key = ascii "tcp" ∨ key = ascii "udp")
    (h : parseSetting key value = .ok parsed) : ∃ n, stoi value = .ok n := by
  cases hkey with
  | inl hkey =>
      rw [hkey, parseSetting_tcp] at h
      obtain ⟨n, hn, -⟩ := exists_of_map_eq_ok h
      exact ⟨n, hn⟩
  | inr hkey =>
      rw [hkey, parseSetting_udp] at h
      obtain ⟨n, hn, -⟩ := exists_of_map_eq_ok h
      exact ⟨n, hn⟩

theorem exists_stoul_of_parseSetting (hkey : key = ascii "max_clients")
    (h : parseSetting key value = .ok parsed) : ∃ n, stoul value = .ok n := by
  rw [hkey, parseSetting_maxClients] at h
  obtain ⟨n, hn, -⟩ := exists_of_map_eq_ok h
  exact ⟨n, hn⟩

end Keys

/-- What an entry that does not throw sets, by its key. -/
inductive Accepted (key value : Bytes) : Option Setting → Prop
  | tcp (n : Int) (hkey : key = ascii "tcp") (hvalue : stoi value = .ok n) :
      Accepted key value (some (.tcp (UInt16.ofInt n)))
  | udp (n : Int) (hkey : key = ascii "udp") (hvalue : stoi value = .ok n) :
      Accepted key value (some (.udp (UInt16.ofInt n)))
  | unix (hkey : key = ascii "unix") : Accepted key value (some (.unix value))
  | maxClients (n : UInt64) (hkey : key = ascii "max_clients") (hvalue : stoul value = .ok n) :
      Accepted key value (some (.maxClients n))
  | logLevel (hkey : key = ascii "log_level") :
      Accepted key value (some (.logLevel (parseLogLevel value)))
  | logFile (hkey : key = ascii "log_file") : Accepted key value (some (.logFile value))
  | unknown (hkey : key ∉ knownKeys) : Accepted key value none

theorem accepted_of_parseSetting {key value : Bytes} {parsed : Option Setting}
    (h : parseSetting key value = .ok parsed) : Accepted key value parsed := by
  unfold parseSetting at h
  split at h
  · rename_i hkey
    obtain ⟨n, hvalue, rfl⟩ := exists_of_map_eq_ok h
    exact .tcp n hkey hvalue
  split at h
  · rename_i hkey
    obtain ⟨n, hvalue, rfl⟩ := exists_of_map_eq_ok h
    exact .udp n hkey hvalue
  split at h
  · rename_i hkey
    cases h
    exact .unix hkey
  split at h
  · rename_i hkey
    obtain ⟨n, hvalue, rfl⟩ := exists_of_map_eq_ok h
    exact .maxClients n hkey hvalue
  split at h
  · rename_i hkey
    cases h
    exact .logLevel hkey
  split at h
  · rename_i hkey
    cases h
    exact .logFile hkey
  · cases h
    refine .unknown ?_
    simp only [knownKeys, List.mem_cons, List.not_mem_nil, or_false, not_or]
    exact ⟨by assumption, by assumption, by assumption, by assumption, by assumption,
      by assumption⟩

/-- The setting is the one that the line names: its value is, from its first character to its last,
the decimal numeral of the port or of the limit. -/
def Setting.NamedBy (key value : Bytes) : Setting → Prop
  | .tcp port => key = ascii "tcp" ∧ Numeral value port.toNat
  | .udp port => key = ascii "udp" ∧ Numeral value port.toNat
  | .maxClients max => key = ascii "max_clients" ∧ Numeral value max.toNat
  | .unix _ | .logLevel _ | .logFile _ => True

/-- The value is no numeral of a port, or no numeral of a limit. -/
def BadValue (key value : Bytes) : Prop :=
  ((key = ascii "tcp" ∨ key = ascii "udp") ∧ ¬ ∃ port : UInt16, Numeral value port.toNat) ∨
    (key = ascii "max_clients" ∧ ¬ ∃ max : UInt64, Numeral value max.toNat)

/-- Every port and every limit is set by a line that names it, and any other value makes
`load_config` throw. -/
structure SetsOnlyNamed (bytes : Bytes) : Prop where
  named : ∀ line setting, (line, setting) ∈ settingsOf (Text.lines newline bytes) →
    ∃ key value, entry line = some (key, value) ∧ setting.NamedBy key value
  rejects : ∀ line ∈ Text.lines newline bytes, ∀ key value, entry line = some (key, value) →
    BadValue key value → ∀ opens s path,
      ∃ e, (loadConfig opens s path (some bytes)).2 = .error e

/-- The value of a port has digits only and is below 2^16, the value of a limit has digits only. -/
def PlainValue (key value : Bytes) : Prop :=
  (key = ascii "tcp" ∨ key = ascii "udp" →
    value.all isDigit = true ∧ digitsValue value < 2 ^ 16) ∧
  (key = ascii "max_clients" → value.all isDigit = true)

/-- The values are plain in all lines up to the first one that throws. -/
def PlainFile (bytes : Bytes) : Prop :=
  ∀ line ∈ linesRead (Text.lines newline bytes), ∀ key value, entry line = some (key, value) →
    PlainValue key value

section Plain

variable {key value line bytes : Bytes} {setting : Setting}

theorem Numeral.all {n : Nat} (h : Numeral value n) : value.all isDigit = true :=
  List.all_eq_true.mpr h.digit

/-- An entry that does not throw, and makes only settings that it names, has a plain value. -/
theorem plainValue_of_named {parsed : Option Setting} (h : Accepted key value parsed)
    (hnamed : ∀ setting, parsed = some setting → setting.NamedBy key value) :
    PlainValue key value := by
  have hport : ∀ port : UInt16, Numeral value port.toNat →
      value.all isDigit = true ∧ digitsValue value < 2 ^ 16 := by
    intro port hnumeral
    rw [hnumeral.value]
    exact ⟨hnumeral.all, port.toNat_lt⟩
  cases h with
  | tcp n hkey hvalue =>
      subst hkey
      exact ⟨fun _ => hport _ (hnamed _ rfl).2, fun hkey => absurd hkey (by decide)⟩
  | udp n hkey hvalue =>
      subst hkey
      exact ⟨fun _ => hport _ (hnamed _ rfl).2, fun hkey => absurd hkey (by decide)⟩
  | maxClients n hkey hvalue =>
      subst hkey
      exact ⟨fun hkey => absurd hkey (by decide), fun _ => (hnamed _ rfl).2.all⟩
  | unix hkey | logLevel hkey | logFile hkey =>
      subst hkey
      exact ⟨fun hkey => absurd hkey (by decide), fun hkey => absurd hkey (by decide)⟩
  | unknown hkey =>
      simp only [knownKeys, List.mem_cons, List.not_mem_nil, or_false, not_or] at hkey
      exact ⟨fun h => (h.elim hkey.1 hkey.2.1).elim, fun h => absurd h hkey.2.2.2.1⟩

theorem namedBy_of_plain (h : Accepted key value (some setting)) (hplain : PlainValue key value) :
    setting.NamedBy key value := by
  cases h with
  | tcp n hkey hvalue =>
      obtain ⟨hall, hfits⟩ := hplain.1 (.inl hkey)
      exact ⟨hkey, numeral_ofInt hvalue hall hfits⟩
  | udp n hkey hvalue =>
      obtain ⟨hall, hfits⟩ := hplain.1 (.inr hkey)
      exact ⟨hkey, numeral_ofInt hvalue hall hfits⟩
  | maxClients n hkey hvalue => exact ⟨hkey, numeral_of_stoul hvalue (hplain.2 hkey)⟩
  | unix _ | logLevel _ | logFile _ => trivial

theorem not_badValue_of_plain {parsed : Option Setting}
    (h : parseSetting key value = .ok parsed) (hplain : PlainValue key value) :
    ¬ BadValue key value := by
  intro hbad
  cases hbad with
  | inl hport =>
      obtain ⟨hkey, hno⟩ := hport
      obtain ⟨hall, hfits⟩ := hplain.1 hkey
      obtain ⟨n, hn⟩ := exists_stoi_of_parseSetting hkey h
      exact hno ⟨_, numeral_ofInt hn hall hfits⟩
  | inr hlimit =>
      obtain ⟨hkey, hno⟩ := hlimit
      obtain ⟨n, hn⟩ := exists_stoul_of_parseSetting hkey h
      exact hno ⟨_, numeral_of_stoul hn (hplain.2 hkey)⟩

theorem parseLine_of_entry (h : entry line = some (key, value)) :
    parseLine line = parseSetting key value := by
  rw [parseLine, h]

theorem exists_entry_of_parseLine (h : parseLine line = .ok (some setting)) :
    ∃ key value, entry line = some (key, value) ∧ parseSetting key value = .ok (some setting) := by
  rw [parseLine] at h
  cases hentry : entry line with
  | none => rw [hentry] at h; cases h
  | some found => rw [hentry] at h; exact ⟨found.1, found.2, rfl, h⟩

theorem setsOnlyNamed_of_plainFile (h : PlainFile bytes) : SetsOnlyNamed bytes := by
  constructor
  · intro line setting hmem
    obtain ⟨hread, hparse⟩ := mem_settingsOf_iff.mp hmem
    obtain ⟨key, value, hentry, hset⟩ := exists_entry_of_parseLine hparse
    exact ⟨key, value, hentry,
      namedBy_of_plain (accepted_of_parseSetting hset) (h line hread key value hentry)⟩
  · intro line hline key value hentry hbad opens s path
    cases mem_linesRead hline with
    | inl hread =>
        have hok := List.mem_takeWhile_imp hread
        cases hparse : parseLine line with
        | error e => rw [hparse] at hok; cases hok
        | ok parsed =>
            rw [parseLine_of_entry hentry] at hparse
            exact absurd hbad (not_badValue_of_plain hparse (h line hread key value hentry))
    | inr hthrows =>
        obtain ⟨bad, hmem, e, hbad⟩ := hthrows
        exact loadLines_threw_of_mem hmem hbad

theorem plainFile_of_setsOnlyNamed (h : SetsOnlyNamed bytes) : PlainFile bytes := by
  intro line hread key value hentry
  have hok := List.mem_takeWhile_imp hread
  cases hparse : parseLine line with
  | error e => rw [hparse] at hok; cases hok
  | ok parsed =>
      have hset := hparse
      rw [parseLine_of_entry hentry] at hset
      refine plainValue_of_named (accepted_of_parseSetting hset) ?_
      rintro setting rfl
      obtain ⟨key', value', hentry', hnamed⟩ :=
        h.named line setting (mem_settingsOf_iff.mpr ⟨hread, hparse⟩)
      rw [hentry] at hentry'
      cases hentry'
      exact hnamed

end Plain

/-- What `load_config` sets are the settings of the lines up to the first one that throws. It opens
no port and sets no limit that the file does not name, and throws on every other value, if and only
if the values in these lines are plain. -/
theorem loadConfig_setsOnlyNamed_iff (bytes : Bytes) :
    (∀ opens s path, (loadConfig opens s path (some bytes)).1.server =
      s.server.extend ((settingsOf (Text.lines newline bytes)).map Prod.snd)) ∧
    (SetsOnlyNamed bytes ↔ PlainFile bytes) := by
  refine ⟨?_, plainFile_of_setsOnlyNamed, setsOnlyNamed_of_plainFile⟩
  intro opens s path
  rw [loadConfig, loadLines_fst, server_foldl_apply]

/-- The port 70000 of the file is taken for 4464. -/
theorem not_loadConfig_setsOnlyNamed : ¬ ∀ bytes, SetsOnlyNamed bytes := by
  intro h
  have hplain := plainFile_of_setsOnlyNamed (h (ascii "tcp = 70000"))
  have hvalue := hplain (ascii "tcp = 70000") (by decide) (ascii "tcp") (ascii "70000") (by decide)
  exact absurd (hvalue.1 (.inl rfl)).2 (by decide)

end Servd
