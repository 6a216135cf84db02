import Servd.ConfigLoading

/-!
The format of the configuration file: one setting on a line, with padding around the line,
the key and the value, and between the settings empty lines, comments, lines without an
equals sign and lines with other keys. `load_config` recovers the settings of every such
file.
-/
namespace Servd

/-- The text of an entry. -/
def Padded (key value row : Bytes) : Prop :=
  ∃ lead beforeEquals afterEquals trail,
    row = lead ++ key ++ beforeEquals ++ 61 :: (afterEquals ++ value ++ trail) ∧
    Blank lead ∧ Blank beforeEquals ∧ Blank afterEquals ∧ Blank trail

/-- A line of the file and the setting that is written on it, if there is one. -/
inductive Row : Option Setting → Bytes → Prop
  | tcp {port : UInt16} {numeral row : Bytes} (h : Numeral numeral port.toNat)
      (hrow : Padded (ascii "tcp") numeral row) : Row (some (.tcp port)) row
  | udp {port : UInt16} {numeral row : Bytes} (h : Numeral numeral port.toNat)
      (hrow : Padded (ascii "udp") numeral row) : Row (some (.udp port)) row
  | unix {path row : Bytes} (hne : path ≠ []) (h : Text.Trimmed isSpace path)
      (hrow : Padded (ascii "unix") path row) : Row (some (.unix path)) row
  | maxClients {max : UInt64} {numeral row : Bytes} (h : Numeral numeral max.toNat)
      (hrow : Padded (ascii "max_clients") numeral row) : Row (some (.maxClients max)) row
  | logLevel {value row : Bytes} (h : Text.Trimmed isSpace value)
      (hrow : Padded (ascii "log_level") value row) : Row (some (.logLevel (parseLogLevel value))) row
  | logFile {path row : Bytes} (h : Text.Trimmed isSpace path)
      (hrow : Padded (ascii "log_file") path row) : Row (some (.logFile path)) row
  | blank {row : Bytes} (h : Blank row) : Row none row
  | comment {lead text : Bytes} (h : Blank lead) : Row none (lead ++ 35 :: text)
  | noEquals {row : Bytes} (h : 61 ∉ row) : Row none row
  | unknown {left right : Bytes} (h : 61 ∉ left) (hkey : trim left ∉ knownKeys) :
      Row none (left ++ 61 :: right)

section Rows

variable {key value row left : Bytes} {parsed : Option Setting}

theorem equals_not_mem_blank {pad : Bytes} (h : Blank pad) : (61 : UInt8) ∉ pad := by
  intro hmem
  exact absurd (h 61 hmem) (by decide)

theorem entry_blank (h : Blank row) : entry row = none := by
  rw [entry, trim, Text.trim_blank h]
  rfl

theorem entry_comment {lead : Bytes} (h : Blank lead) (text : Bytes) :
    entry (lead ++ 35 :: text) = none := by
  have htrim : trim (lead ++ 35 :: text) = 35 :: text.rdropWhile isSpace := by
    rw [trim, Text.trim_append_cons (by decide), List.dropWhile_eq_nil_iff.mpr h, List.nil_append]
  rw [entry, htrim]
  rfl

theorem entry_noEquals (h : 61 ∉ row) : entry row = none := by
  have htrim : 61 ∉ trim row := by
    intro hmem
    have hdrop := (List.rdropWhile_prefix isSpace _).subset hmem
    exact h ((List.dropWhile_suffix isSpace).subset hdrop)
  simp only [entry, Text.splitFirst_of_not_mem htrim, Option.map_none, ite_self]

/-- The entry of a line with an equals sign, which may still be a comment. -/
theorem entry_append (h : 61 ∉ left) (right : Bytes) :
    entry (left ++ 61 :: right) =
      if (left.dropWhile isSpace).head? = some 35 then none
      else some (trim left, trim right) := by
  have htrim : trim (left ++ 61 :: right) =
      left.dropWhile isSpace ++ 61 :: right.rdropWhile isSpace := Text.trim_append_cons (by decide)
  have hequals : 61 ∉ left.dropWhile isSpace := fun hmem =>
    h ((List.dropWhile_suffix isSpace).subset hmem)
  have hsplit := Text.splitFirst_append hequals (right.rdropWhile isSpace)
  have hhead : (left.dropWhile isSpace ++ 61 :: right.rdropWhile isSpace).head? = some 35 ↔
      (left.dropWhile isSpace).head? = some 35 := by
    cases left.dropWhile isSpace with
    | nil => simp
    | cons b rest => rfl
  have hne : left.dropWhile isSpace ++ 61 :: right.rdropWhile isSpace ≠ [] := by simp
  simp only [entry, htrim, hne, false_or, hhead, hsplit, Option.map_some]
  simp only [trim, Text.trim_dropWhile, Text.trim_rdropWhile]

theorem entry_padded (hkey : Text.Trimmed isSpace key) (hne : key ≠ []) (hequals : 61 ∉ key)
    (hcomment : key.head? ≠ some 35) (hvalue : Text.Trimmed isSpace value)
    (h : Padded key value row) : entry row = some (key, value) := by
  obtain ⟨lead, before, after, trail, rfl, hlead, hbefore, hafter, htrail⟩ := h
  have hleft : 61 ∉ lead ++ key ++ before := by
    simp only [List.mem_append, not_or]
    exact ⟨⟨equals_not_mem_blank hlead, hequals⟩, equals_not_mem_blank hbefore⟩
  have hhead : ((lead ++ key ++ before).dropWhile isSpace).head? ≠ some 35 := by
    rw [List.append_assoc, dropWhile_blank hlead]
    cases key with
    | nil => exact absurd rfl hne
    | cons b key =>
        rw [List.cons_append, List.dropWhile_cons_of_neg (by simp [hkey.first b rfl])]
        exact hcomment
  rw [entry_append hleft, if_neg hhead, trim, trim, Text.trim_padded hlead hkey hbefore,
    Text.trim_padded hafter hvalue htrail]

theorem Numeral.trimmed {n : Nat} (h : Numeral value n) : Text.Trimmed isSpace value :=
  Text.trimmed_of_forall fun b hb => isSpace_of_digit (h.digit b hb)

/-- An entry with one of the keys that are known. -/
theorem parseLine_padded (hkey : key ∈ knownKeys) (hvalue : Text.Trimmed isSpace value)
    (h : Padded key value row) : parseLine row = parseSetting key value := by
  have hplain : ∀ k ∈ knownKeys, (k.all fun b => !isSpace b && b ≠ 61) = true ∧ k ≠ [] ∧
      k.head? ≠ some 35 := by decide
  obtain ⟨hall, hne, hcomment⟩ := hplain key hkey
  have hletter : ∀ b ∈ key, isSpace b = false ∧ b ≠ 61 := by
    intro b hb
    simpa using List.all_eq_true.mp hall b hb
  exact parseLine_of_entry (entry_padded (Text.trimmed_of_forall fun b hb => (hletter b hb).1) hne
    (fun hmem => (hletter 61 hmem).2 rfl) hcomment hvalue h)

theorem ofInt_toNat (port : UInt16) : UInt16.ofInt port.toNat = port := by
  have hport := port.toNat_lt
  rw [UInt16.ofInt, ← UInt16.toNat_inj, UInt16.toNat_ofNat']
  omega

theorem parseSetting_unknown (h : key ∉ knownKeys) (value : Bytes) :
    parseSetting key value = .ok none := by
  simp only [knownKeys, List.mem_cons, List.not_mem_nil, or_false, not_or] at h
  obtain ⟨htcp, hudp, hunix, hmax, hlevel, hfile⟩ := h
  simp only [parseSetting, htcp, hudp, hunix, hmax, hlevel, hfile, if_false]

theorem parseLine_of_row (h : Row parsed row) : parseLine row = .ok parsed := by
  cases h with
  | @tcp port numeral _ h hrow =>
      have hport := port.toNat_lt
      rw [parseLine_padded (by decide) h.trimmed hrow, parseSetting_tcp,
        stoi_of_numeral h (by omega), Except.map, ofInt_toNat]
  | @udp port numeral _ h hrow =>
      have hport := port.toNat_lt
      rw [parseLine_padded (by decide) h.trimmed hrow, parseSetting_udp,
        stoi_of_numeral h (by omega), Except.map, ofInt_toNat]
  | unix hne h hrow =>
      rw [parseLine_padded (by decide) h hrow]
      rfl
  | maxClients h hrow =>
      rw [parseLine_padded (by decide) h.trimmed hrow, parseSetting_maxClients, stoul_of_numeral h,
        Except.map]
  | logLevel h hrow =>
      rw [parseLine_padded (by decide) h hrow]
      rfl
  | logFile h hrow =>
      rw [parseLine_padded (by decide) h hrow]
      rfl
  | blank h => rw [parseLine, entry_blank h]
  | comment h => rw [parseLine, entry_comment h]
  | noEquals h => rw [parseLine, entry_noEquals h]
  | @unknown left _ h hkey =>
      rw [parseLine, entry_append h]
      by_cases hcomment : (left.dropWhile isSpace).head? = some 35
      · rw [if_pos hcomment]
      · rw [if_neg hcomment]
        exact parseSetting_unknown hkey _

end Rows

section File

variable {opens : Bytes → Bool}

theorem loadLines_rows (opens : Bytes → Bool) (rows : List (Option Setting × Bytes))
    (h : ∀ r ∈ rows, parseLine r.2 = .ok r.1) (s : Loaded) :
    loadLines opens s (rows.map Prod.snd) =
      ((rows.filterMap Prod.fst).foldl (Setting.apply opens) s, .ok ()) := by
  induction rows generalizing s with
  | nil => rfl
  | cons r rows ih =>
      obtain ⟨parsed, row⟩ := r
      have hrow : parseLine row = .ok parsed := h (parsed, row) List.mem_cons_self
      have hrest := ih fun r hr => h r (List.mem_cons_of_mem _ hr)
      rw [List.map_cons, loadLines, hrow]
      cases parsed with
      | none => exact hrest s
      | some setting => exact hrest (setting.apply opens s)

/-- An empty line at the end makes no difference. -/
theorem loadLines_append_empty (s : Loaded) (lines : List Bytes) :
    loadLines opens s (lines ++ [[]]) = loadLines opens s lines := by
  induction lines generalizing s with
  | nil => rfl
  | cons line lines ih =>
      rw [List.cons_append, loadLines, loadLines]
      cases parseLine line with
      | error e => rfl
      | ok parsed =>
          cases parsed with
          | none => exact ih s
          | some setting => exact ih (setting.apply opens s)

end File

/-- Every file of the format is loaded, whether or not its last line is ended: the ports and paths are
appended in the order of the file, and the limit is the last one given. -/
theorem loadConfig_rows (opens : Bytes → Bool) (s : Loaded) (path : String)
    (rows : List (Option Setting × Bytes)) (hrows : ∀ r ∈ rows, Row r.1 r.2 ∧ newline ∉ r.2)
    (content : Bytes)
    (hcontent : content = rows.flatMap (fun r => r.2 ++ [newline]) ∨
      content ++ [newline] = rows.flatMap fun r => r.2 ++ [newline]) :
    ∃ s', loadConfig opens s path (some content) = (s', .ok ()) ∧
      s'.server = s.server.extend (rows.filterMap Prod.fst) := by
  have hparsed := loadLines_rows opens rows (fun r hr => parseLine_of_row (hrows r hr).1) s
  have hwritten : rows.flatMap (fun r => r.2 ++ [newline]) =
      (rows.map Prod.snd).flatMap fun row => row ++ [newline] := by
    rw [List.flatMap_map]
  rw [hwritten] at hcontent
  have hnewline : ∀ row ∈ rows.map Prod.snd, newline ∉ row := by
    intro row hrow
    obtain ⟨r, hr, rfl⟩ := List.mem_map.mp hrow
    exact (hrows r hr).2
  refine ⟨(rows.filterMap Prod.fst).foldl (Setting.apply opens) s, ?_,
    server_foldl_apply opens _ s⟩
  rw [← hparsed, loadConfig]
  cases Text.lines_file hnewline hcontent with
  | inl hlines => rw [hlines]
  | inr hlines => rw [hlines, loadLines_append_empty]

/-- A comment with an equals sign, a port with padding and a leading zero, a path with an equals sign
and a hash, and a limit on a line that is not ended. -/
theorem loadConfig_rows_four :
    ∃ s', loadConfig (fun _ => true) {} "servd.conf"
        (some (ascii "# tcp=1\n tcp\t= 080 \nunix=/a=b#c\nmax_clients=7")) = (s', .ok ()) ∧
      s'.server = ⟨[(80, .binary)], [], [(ascii "/a=b#c", .binary)], 7⟩ := by
  refine loadConfig_rows (fun _ => true) {} "servd.conf"
    [(none, ascii "# tcp=1"), (some (.tcp 80), ascii " tcp\t= 080 "),
      (some (.unix (ascii "/a=b#c")), ascii "unix=/a=b#c"),
      (some (.maxClients 7), ascii "max_clients=7")] ?_ _ (.inr (by decide))
  intro r hr
  simp only [List.mem_cons, List.not_mem_nil, or_false] at hr
  obtain rfl | rfl | rfl | rfl := hr
  · exact ⟨@Row.comment [] _ (by simp [Blank]), by decide⟩
  · refine ⟨@Row.tcp _ (ascii "080") _ ⟨by decide, List.all_eq_true.mp (by decide), by decide⟩
      ⟨[32], [9], [32], [32], by decide, ?_, ?_, ?_, ?_⟩, by decide⟩ <;> simp [Blank, isSpace]
  · refine ⟨.unix (by decide) ⟨?_, ?_⟩ ⟨[], [], [], [], by decide, ?_, ?_, ?_, ?_⟩, by decide⟩ <;>
      simp [Blank, ascii, isSpace]
  · refine ⟨@Row.maxClients _ (ascii "7") _ ⟨by decide, List.all_eq_true.mp (by decide), by decide⟩
      ⟨[], [], [], [], by decide, ?_, ?_, ?_, ?_⟩, by decide⟩ <;> simp [Blank]

end Servd
