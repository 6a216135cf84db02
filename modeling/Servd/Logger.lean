import Servd.Protocol

/-!
The logger. Every line starts with the time, the level and the place in the source, which
is cut or padded to a column of a width that the application sets. The index at which the
place is cut is a difference of unsigned sizes.
-/
namespace Servd

/-- The bytes of an ASCII text. -/
def ascii (text : String) : Bytes := text.toList.map fun c => UInt8.ofNat c.toNat

inductive LogLevel
  | debug | info | warn | error
  deriving DecidableEq

namespace LogLevel

def index : LogLevel → Nat
  | .debug => 0
  | .info => 1
  | .warn => 2
  | .error => 3

/-- `G_LEVEL_STRINGS`. -/
def text : LogLevel → Bytes
  | .debug => ascii "DEBUG"
  | .info => ascii "INFO "
  | .warn => ascii "WARN "
  | .error => ascii "ERROR"

/-- `G_LEVEL_COLORS`. -/
def color : LogLevel → Bytes
  | .debug => ascii "\x1b[94m"
  | .info => ascii "\x1b[32m"
  | .warn => ascii "\x1b[33m"
  | .error => ascii "\x1b[31m"

end LogLevel

def colorReset : Bytes := ascii "\x1b[0m"

def colorMeta : Bytes := ascii "\x1b[90m"

structure Logger where
  level : LogLevel := .debug
  logFile : Bytes := []
  fileColumnWidth : UInt64 := 32
  -- `s_file_stream.is_open()`
  fileOpen : Bool := false

/-- `std::to_string` of an `int`. -/
def decimalInt (n : Int32) : Bytes :=
  if n < 0 then ascii "-" ++ Bytes.decimal n.toInt.natAbs else Bytes.decimal n.toInt.natAbs

/-- `std::string::size`. -/
def size64 (text : Bytes) : UInt64 := UInt64.ofNat text.length

/-- `std::string::substr` from a position to the end. -/
def substr (text : Bytes) (pos : UInt64) : Except Exc Bytes :=
  if size64 text < pos then .error (.std "basic_string::substr")
  else .ok (text.drop pos.toNat)

/-- `(name:line)`. -/
def location (basename : Bytes) (line : Int32) : Bytes :=
  ascii "(" ++ basename ++ ascii ":" ++ decimalInt line ++ ascii ")"

namespace Logger

def setLevel (logger : Logger) (level : LogLevel) : Logger := { logger with level := level }

/-- `opened` says whether the file could be opened; a failure is reported and ignored. -/
def setLogFile (logger : Logger) (filePath : Bytes) (opened : Bool) : Logger :=
  { logger with logFile := filePath, fileOpen := logger.fileOpen || opened }

def setFileColumnWidth (logger : Logger) (width : UInt64) : Logger :=
  { logger with fileColumnWidth := width }

def formatFileColumn (logger : Logger) (basename : Bytes) (line : Int32) : Except Exc Bytes :=
  let loc := location basename line
  let width := logger.fileColumnWidth
  if width < size64 loc then
    (substr loc (size64 loc - (width - 2))).map fun tail => ascii ".." ++ tail
  else .ok (loc ++ List.replicate (width - size64 loc).toNat blank)

/-- What follows the last slash of `__FILE__`. -/
def baseName (file : Bytes) : Bytes := (file.reverse.takeWhile fun b => b ≠ 47).reverse

/-- What `print_sanitized` prints of the text that `vsnprintf` left in a buffer of 2048 bytes. -/
def sanitized (message : Bytes) : Bytes :=
  ((message.take 2047).takeWhile fun b => b ≠ 0).flatMap fun b =>
    if b = newline then ascii "\\n" else [b]

/-- What a call of `log` prints on the error stream and into the log file, and how it ends. -/
structure Printed where
  stderr : Bytes
  file : Bytes
  result : Except Exc Unit

def head (time : Bytes) (level : LogLevel) : Bytes :=
  time ++ ascii " [" ++ level.text ++ ascii "] " ++ ascii " "

def ttyHead (time : Bytes) (level : LogLevel) : Bytes :=
  colorMeta ++ time ++ ascii " " ++ colorReset ++ level.color ++ ascii "[" ++ level.text ++
    ascii "]" ++ colorReset ++ colorMeta ++ ascii " "

/-- `tty` is whether the error stream is a terminal, `message` the formatted text. The operands of
the output operators are evaluated from left to right, so what stands before the column has been
printed when formatting it throws. -/
def log (logger : Logger) (tty : Bool) (time : Bytes) (level : LogLevel) (file : Bytes)
    (line : Int32) (message : Bytes) : Printed :=
  if level.index < logger.level.index then ⟨[], [], .ok ()⟩
  else
    let before := if tty then ttyHead time level else head time level
    let after := if tty then ascii ": " ++ colorReset else ascii ": "
    match logger.formatFileColumn (baseName file) line with
    | .error e => ⟨before, [], .error e⟩
    | .ok place =>
        ⟨before ++ place ++ after ++ sanitized message ++ [newline],
          if logger.fileOpen then
            head time level ++ place ++ ascii ": " ++ sanitized message ++ [newline]
          else [],
          .ok ()⟩

/-- `log_s` has the same body. -/
def logS (logger : Logger) (tty : Bool) (time : Bytes) (level : LogLevel) (file : Bytes)
    (line : Int32) (message : Bytes) : Printed :=
  logger.log tty time level file line message

/-- How a call of `log` ends. -/
def logged (logger : Logger) (level : LogLevel) : Except Exc Unit :=
  if logger.level.index ≤ level.index ∧ logger.fileColumnWidth < 2 then
    .error (.std "basic_string::substr")
  else .ok ()

end Logger

/-- A text in a column of the given width: cut on the left if it is too long, else padded on the
right. -/
def column (width : Nat) (text : Bytes) : Bytes :=
  if 2 ≤ width ∧ width < text.length then ascii ".." ++ text.drop (text.length - (width - 2))
  else text ++ List.replicate (width - text.length) blank

theorem length_column {width : Nat} (h : 2 ≤ width) (text : Bytes) :
    (column width text).length = width := by
  unfold column
  split
  · have hdots : (ascii "..").length = 2 := rfl
    rw [List.length_append, List.length_drop, hdots]
    omega
  · rw [List.length_append, List.length_replicate]
    omega

/-- The shortest place has a bracket, a colon, a digit and a bracket. -/
theorem four_le_length_location (basename : Bytes) (line : Int32) :
    4 ≤ (location basename line).length := by
  have hdigits : 0 < (decimalInt line).length := by
    unfold decimalInt
    have hpos := List.length_pos_of_ne_nil (Bytes.decimal_ne_nil line.toInt.natAbs)
    split
    · rw [List.length_append]
      omega
    · exact hpos
  have hopen : (ascii "(").length = 1 := rfl
  have hcolon : (ascii ":").length = 1 := rfl
  have hclose : (ascii ")").length = 1 := rfl
  simp only [location, List.length_append, hopen, hcolon, hclose]
  omega

section Column

variable {logger : Logger} {basename : Bytes} {line : Int32}

theorem toNat_size64 {text : Bytes} (h : text.length < 2 ^ 64) :
    (size64 text).toNat = text.length := by
  rw [size64, UInt64.toNat_ofNat', Nat.mod_eq_of_lt h]

theorem formatFileColumn_of_le (hsize : (location basename line).length < 2 ^ 64)
    (hwidth : 2 ≤ logger.fileColumnWidth) :
    logger.formatFileColumn basename line =
      .ok (column logger.fileColumnWidth.toNat (location basename line)) := by
  have hloc := toNat_size64 hsize
  have htwo : 2 ≤ logger.fileColumnWidth.toNat := UInt64.le_iff_toNat_le.mp hwidth
  unfold Logger.formatFileColumn column
  by_cases hlong : logger.fileColumnWidth < size64 (location basename line)
  · have hlt := UInt64.lt_iff_toNat_lt.mp hlong
    have hinner : (logger.fileColumnWidth - 2).toNat = logger.fileColumnWidth.toNat - 2 :=
      UInt64.toNat_sub_of_le _ _ hwidth
    have hindex : (size64 (location basename line) - (logger.fileColumnWidth - 2)).toNat =
        (location basename line).length - (logger.fileColumnWidth.toNat - 2) := by
      rw [UInt64.toNat_sub_of_le _ _ (UInt64.le_iff_toNat_le.mpr (by omega)), hinner, hloc]
    have hinside : ¬ size64 (location basename line) <
        size64 (location basename line) - (logger.fileColumnWidth - 2) := by
      rw [UInt64.lt_iff_toNat_lt, hindex, hloc]
      omega
    simp only [if_pos hlong, substr, if_neg hinside, hindex, Except.map]
    rw [if_pos ⟨htwo, by omega⟩]
  · have hle := UInt64.not_lt.mp hlong
    have hnot : ¬ logger.fileColumnWidth.toNat < (location basename line).length := by
      rw [← hloc]
      exact Nat.not_lt.mpr (UInt64.le_iff_toNat_le.mp hle)
    simp only [if_neg hlong, hnot, and_false, if_false, UInt64.toNat_sub_of_le _ _ hle, hloc]

/-- With a width below 2 the inner difference wraps around, and the index is behind the end. -/
theorem formatFileColumn_of_lt (hsize : (location basename line).length < 2 ^ 63)
    (hwidth : logger.fileColumnWidth < 2) :
    logger.formatFileColumn basename line = .error (.std "basic_string::substr") := by
  have hloc := toNat_size64 (show (location basename line).length < 2 ^ 64 by omega)
  have hfour := four_le_length_location basename line
  have htwo : logger.fileColumnWidth.toNat < 2 := UInt64.lt_iff_toNat_lt.mp hwidth
  have hlong : logger.fileColumnWidth < size64 (location basename line) := by
    rw [UInt64.lt_iff_toNat_lt, hloc]
    omega
  have hindex : (size64 (location basename line) - (logger.fileColumnWidth - 2)).toNat =
      (location basename line).length + 2 - logger.fileColumnWidth.toNat := by
    rw [UInt64.toNat_sub, UInt64.toNat_sub, hloc]
    simp only [UInt64.toNat_ofNat]
    omega
  have hbehind : size64 (location basename line) <
      size64 (location basename line) - (logger.fileColumnWidth - 2) := by
    rw [UInt64.lt_iff_toNat_lt, hindex, hloc]
    omega
  simp only [Logger.formatFileColumn, if_pos hlong, substr, if_pos hbehind, Except.map]

end Column

section Log

variable {logger : Logger} {tty : Bool} {time file message : Bytes} {level : LogLevel}
  {line : Int32}

/-- How a call of `log` ends does not depend on the place and the message. -/
theorem log_result (hsize : (location (Logger.baseName file) line).length < 2 ^ 63) :
    (logger.log tty time level file line message).result = logger.logged level := by
  have hformat : (logger.formatFileColumn (Logger.baseName file) line).map (fun _ => ()) =
      if logger.fileColumnWidth < 2 then .error (.std "basic_string::substr") else .ok () := by
    split
    · rename_i hwidth
      rw [formatFileColumn_of_lt hsize hwidth]
      rfl
    · rename_i hwidth
      rw [formatFileColumn_of_le (by omega) (UInt64.not_lt.mp hwidth)]
      rfl
  unfold Logger.log Logger.logged
  by_cases hlevel : level.index < logger.level.index
  · rw [if_pos hlevel, if_neg fun h => Nat.not_lt.mpr h.1 hlevel]
  · rw [if_neg hlevel]
    simp only [Nat.not_lt.mp hlevel, true_and, ← hformat]
    cases logger.formatFileColumn (Logger.baseName file) line <;> rfl

/-- A logging call throws if and only if the line is not filtered out and the column is narrower
than 2. -/
theorem log_throws_iff (hsize : (location (Logger.baseName file) line).length < 2 ^ 63) :
    (logger.log tty time level file line message).result ≠ .ok () ↔
      logger.level.index ≤ level.index ∧ logger.fileColumnWidth < 2 := by
  rw [log_result hsize, Logger.logged]
  split
  · rename_i h
    exact iff_of_true (by simp) h
  · rename_i h
    exact iff_of_false (fun hne => hne rfl) h

theorem newline_not_mem_sanitized : newline ∉ Logger.sanitized message := by
  intro h
  obtain ⟨b, -, hb⟩ := List.mem_flatMap.mp h
  split at hb
  · exact absurd hb (by decide)
  · rename_i hne
    exact hne (List.mem_singleton.mp hb).symm

theorem newline_not_mem_decimalInt : newline ∉ decimalInt line := by
  unfold decimalInt
  split
  · rw [List.mem_append, not_or]
    exact ⟨by decide, newline_not_mem_decimal _⟩
  · exact newline_not_mem_decimal _

theorem newline_not_mem_column {width : Nat} {text : Bytes} (h : newline ∉ text) :
    newline ∉ column width text := by
  unfold column
  split
  · rw [List.mem_append, not_or]
    exact ⟨by decide, fun hmem => h (List.mem_of_mem_drop hmem)⟩
  · rw [List.mem_append, not_or]
    refine ⟨h, fun hmem => ?_⟩
    exact absurd (List.eq_of_mem_replicate hmem) (by decide)

/-- Whatever the message is, what goes into the log file is one line. -/
theorem log_one_line (hsize : (location (Logger.baseName file) line).length < 2 ^ 63)
    (htime : newline ∉ time) (hfile : newline ∉ file) (hopen : logger.fileOpen = true)
    (hlevel : logger.level.index ≤ level.index) (hwidth : 2 ≤ logger.fileColumnWidth) :
    ∃ text, (logger.log tty time level file line message).file = text ++ [newline] ∧
      newline ∉ text := by
  have hbase : newline ∉ Logger.baseName file := by
    intro h
    exact hfile (List.mem_reverse.mp (List.takeWhile_subset _ (List.mem_reverse.mp h)))
  have hplace : newline ∉ location (Logger.baseName file) line := by
    simp only [location, List.mem_append, not_or]
    exact ⟨⟨⟨⟨by decide, hbase⟩, by decide⟩, newline_not_mem_decimalInt⟩, by decide⟩
  have hhead : newline ∉ Logger.head time level := by
    simp only [Logger.head, List.mem_append, not_or]
    refine ⟨⟨⟨⟨htime, by decide⟩, ?_⟩, by decide⟩, by decide⟩
    cases level <;> decide
  unfold Logger.log
  rw [if_neg (Nat.not_lt.mpr hlevel), formatFileColumn_of_le (by omega) hwidth]
  simp only [hopen, if_true]
  refine ⟨_, rfl, ?_⟩
  simp only [List.mem_append, not_or]
  exact ⟨⟨⟨hhead, newline_not_mem_column hplace⟩, by decide⟩, newline_not_mem_sanitized⟩

end Log

/-- For every width, file name and line number, the location is formatted to a column of that width
and nothing is thrown if and only if the width is at least 2. The size is that of an object, which is
below 2^63. -/
theorem formatFileColumn_column_iff (logger : Logger) (width : UInt64) (basename : Bytes)
    (line : Int32) (hsize : (location basename line).length < 2 ^ 63) :
    (∃ out, (logger.setFileColumnWidth width).formatFileColumn basename line = .ok out ∧
      out.length = width.toNat ∧ out = column width.toNat (location basename line)) ↔ 2 ≤ width := by
  constructor
  · intro h
    obtain ⟨out, hok, -⟩ := h
    by_contra hlt
    rw [formatFileColumn_of_lt hsize (UInt64.not_le.mp hlt)] at hok
    cases hok
  · intro hwidth
    refine ⟨_, formatFileColumn_of_le (by omega) hwidth, ?_, rfl⟩
    exact length_column (UInt64.le_iff_toNat_le.mp hwidth) _

/-- The place `(main.cpp:7)` in a column of 6. -/
theorem formatFileColumn_column_cut :
    ∃ out, (({} : Logger).setFileColumnWidth 6).formatFileColumn (ascii "main.cpp") 7 = .ok out ∧
      out.length = 6 ∧ out = ascii "..p:7)" :=
  (formatFileColumn_column_iff {} 6 (ascii "main.cpp") 7 (by decide)).mpr (by decide)

/-- The place `(a:1)` in a column of no width. -/
theorem not_formatFileColumn_column :
    ¬ ∀ (width : UInt64) (basename : Bytes) (line : Int32),
      (location basename line).length < 2 ^ 63 →
      ∃ out, (({} : Logger).setFileColumnWidth width).formatFileColumn basename line = .ok out ∧
        out.length = width.toNat ∧ out = column width.toNat (location basename line) := by
  intro h
  obtain ⟨out, hok, -⟩ := h 0 (ascii "a") 1 (by decide)
  have hthrows : (({} : Logger).setFileColumnWidth 0).formatFileColumn (ascii "a") 1 =
      .error (.std "basic_string::substr") := by decide
  rw [hthrows] at hok
  cases hok

end Servd
