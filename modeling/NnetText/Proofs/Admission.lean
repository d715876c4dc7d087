import NnetText.Proofs.Streaming

/-!
# Which files are taken in

A model file has to pass four checks before a word of it is read: it must not be too large, nor
empty, it must be text, and it must not have too many lines. They are made in this order, and a
file that passes them all is converted like the text that it holds.

The lines that are counted are not the lines that are read. Counting takes a line without its end,
reading needs the line feed. That both come to the same number, so that the limit on the lines of
a file is a limit on the lines the cursor can go through, is `NnetText.plainLines_eq_linesOf`: the
lines of the one are those of the other without their ends.
-/

namespace NnetText

/-! ### Lines without their ends -/

/-- A line without the carriage return at its end, if there is one. -/
def withoutReturn (line : List Char) : List Char :=
  if line.getLast? = some '\r' then line.dropLast else line

/-- Lines from the pieces between line feeds. What is behind the last line feed is a line only if
there is something; a carriage return belongs to the end of a line where a line feed follows. -/
def linesOfPieces : List (List Char) → List (List Char)
  | [] => []
  | [last] => if last = [] then [] else [last]
  | piece :: rest => withoutReturn piece :: linesOfPieces rest

/-- **The lines of a text without their ends.** A line feed ends a line, with a carriage return in
front of it or not, and the last line needs no end. -/
def plainLines (text : List Char) : List (List Char) := linesOfPieces (text.splitOn '\n')

/-- A line without its end. -/
def withoutEnd (line : List Char) : List Char :=
  if line.getLast? = some '\n' then withoutReturn line.dropLast else line

theorem withoutEnd_append_feed (line : List Char) :
    withoutEnd (line ++ ['\n']) = withoutReturn line := by
  rw [withoutEnd, List.getLast?_concat, if_pos rfl, List.dropLast_concat]

theorem withoutEnd_of_no_feed {line : List Char} (h : '\n' ∉ line) : withoutEnd line = line :=
  if_neg fun hlast => h (List.mem_of_getLast? hlast)

theorem linesOfPieces_cons {piece : List Char} {pieces : List (List Char)} (h : pieces ≠ []) :
    linesOfPieces (piece :: pieces) = withoutReturn piece :: linesOfPieces pieces := by
  obtain ⟨first, rest, rfl⟩ := List.exists_cons_of_ne_nil h
  rfl

/-- **The lines that are counted are the lines that are read**, without their ends. -/
theorem plainLines_eq_linesOf (text : List Char) :
    plainLines text = (linesOf text).map withoutEnd := by
  induction text using lineInduction with
  | last line hline =>
    rw [plainLines, List.splitOn_eq_singleton hline, linesOfPieces]
    by_cases hne : line = []
    · rw [if_pos hne, hne]
      rfl
    · rw [if_neg hne, linesOf_of_no_feed hne hline, List.map_singleton,
        withoutEnd_of_no_feed hline]
  | line line rest hline ih =>
    rw [plainLines, List.splitOn_append_cons_self, List.splitOn_eq_singleton hline,
      List.singleton_append, linesOfPieces_cons (List.splitOn_ne_nil _ _), ← plainLines, ih,
      linesOf_append_feed hline, List.map_cons, withoutEnd_append_feed]

/-- The number of lines of a file is that of its plain lines. -/
theorem lineCount_eq_length_plainLines (text : List Char) :
    ModelFile.lineCount text = (plainLines text).length := by
  rw [plainLines_eq_linesOf, List.length_map]
  rfl

/-- Asking in vain does not count as a line. -/
theorem Cursor.lineNumber_of_advance_false {c d : Cursor} (h : c.advance = (false, d)) :
    d.lineNumber = c.lineNumber := by
  rcases advance_cases c with ⟨-, heq⟩ | ⟨line, rest, -, heq⟩ | ⟨reason, rest, -, heq⟩
  · rw [← (Prod.mk.inj (heq.symm.trans h)).2]
  · cases heq.symm.trans h
  · rw [← (Prod.mk.inj (heq.symm.trans h)).2]
    rfl

/-- **No more lines are gone through than there are.** -/
theorem Section.lineNumber_read_ofText_le (limits : Limits) (text : List Char) :
    (read limits (.ofText text)).2.lineNumber ≤ (SourceLine.ofText text).length := by
  obtain ⟨d, hsince, hend⟩ := exists_since_run limits (.ofText text)
  obtain ⟨taken, hpending, hnumber⟩ := hsince.takes
  have hd : d.lineNumber ≤ (SourceLine.ofText text).length := by
    have hlength := congrArg List.length hpending
    rw [List.length_append, List.length_map] at hlength
    have hstart : (Cursor.ofText text).lineNumber = 0 := rfl
    change (SourceLine.ofText text).length = _ at hlength
    omega
  rw [lineNumber_read]
  rcases hend with ⟨-, rfl⟩ | ⟨-, hadvance⟩
  · exact hd
  · rw [Cursor.lineNumber_of_advance_false hadvance]
    exact hd

/-! ### From the file to the text -/

/-- **A file holds the given bytes**: they can be read, and their number is the size that is
asked for beforehand. -/
structure FileEntry.Holds (entry : FileEntry) (bytes : List UInt8) : Prop where
  content : entry.content = .ok bytes
  size : entry.size = bytes.length

namespace ModelFile

variable {limits : Limits} {entry : FileEntry} {bytes : List UInt8}

theorem accept_file {path : String} (hpath : path ≠ "") :
    accept limits path (.file entry) = ofEntry limits entry :=
  if_neg (by simpa using hpath)

theorem ofEntry_of_tooLarge (h : entry.Holds bytes) (hlarge : limits.fileSize < bytes.length) :
    ofEntry limits entry = .error (.fileTooLarge bytes.length limits.fileSize) := by
  rw [ofEntry, h.size, if_pos hlarge]

theorem ofEntry_of_empty (h : entry.Holds bytes) (hempty : bytes = []) :
    ofEntry limits entry = .error (.emptyFile entry.canonical) := by
  have hsize : entry.size = 0 := by rw [h.size, hempty, List.length_nil]
  rw [ofEntry, if_neg (by omega), if_pos hsize]

section Decoded

variable (h : entry.Holds bytes) (hsize : bytes.length ≤ limits.fileSize) (hne : bytes ≠ [])
include h hsize hne

/-- A file of an allowed size is refused if it holds no text. -/
theorem ofEntry_of_none (hnone : decodeUtf8 bytes = none) :
    ofEntry limits entry = .error (.invalidEncoding entry.canonical) := by
  have hpos : entry.size ≠ 0 := by simpa [h.size] using hne
  rw [ofEntry, if_neg (by rw [h.size]; omega), if_neg hpos, decode, h.content]
  simp only [hnone]

/-- **A text is measured by its plain lines.** -/
theorem ofEntry_of_some {text : List Char} (hsome : decodeUtf8 bytes = some text) :
    ofEntry limits entry =
      if limits.lineCount < (plainLines text).length then
        .error (.tooManyLines (plainLines text).length limits.lineCount)
      else
        .ok ⟨text, ⟨entry.canonical, bytes.length, (plainLines text).length, entry.modified⟩⟩ := by
  have hpos : entry.size ≠ 0 := by simpa [h.size] using hne
  rw [ofEntry, if_neg (by rw [h.size]; omega), if_neg hpos, decode, h.content]
  simp only [hsome, lineCount_eq_length_plainLines, h.size]

end Decoded

end ModelFile

namespace Run

/-- **An attempt is refused** before anything is read. -/
structure Refused (r : Run) (e : FileError) : Prop where
  outcome : r.outcome = .error (.file e)
  file : r.file = none
  notices : r.notices = []

/-- **An attempt converts a text** that comes from a file: what comes of it is what comes of the
text by itself, and the file is known by its size and the number of the lines that there are to go
through. -/
structure Converts (limits : Limits) (r : Run) (text : List Char) (size : Nat) : Prop where
  outcome : r.outcome = (ofText limits text).outcome
  notices : r.notices = (ofText limits text).notices
  file : ∃ info, r.file = some info ∧ info.size = size ∧
    info.lineCount = (SourceLine.ofText text).length ∧
    (Section.read limits (.ofText text)).2.lineNumber ≤ info.lineCount ∧
    info.lineCount ≤ limits.lineCount

variable {limits : Limits} {path : String} {entry : FileEntry}

theorem refused_of_ofEntry {e : FileError} (hpath : path ≠ "")
    (h : ModelFile.ofEntry limits entry = .error e) :
    (ofFile limits path (.file entry)).Refused e := by
  rw [ofFile, ModelFile.accept_file hpath, h]
  exact ⟨rfl, rfl, rfl⟩

theorem converts_of_ofEntry {m : ModelFile} (hpath : path ≠ "")
    (h : ModelFile.ofEntry limits entry = .ok m)
    (hcount : m.info.lineCount = (SourceLine.ofText m.text).length)
    (hlimit : m.info.lineCount ≤ limits.lineCount) :
    (ofFile limits path (.file entry)).Converts limits m.text m.info.size := by
  rw [ofFile, ModelFile.accept_file hpath, h]
  refine ⟨rfl, rfl, m.info, rfl, rfl, hcount, ?_, hlimit⟩
  rw [hcount]
  exact Section.lineNumber_read_ofText_le limits m.text

/-- **The files that are taken in, and what comes of them.** A path leads to a file with the given
bytes. If these are too many, or none, or no text, or have too many lines, the file is refused for
the first of these reasons that there is; and otherwise its text is converted. -/
theorem ofFile_admits (limits : Limits) {path : String} {entry : FileEntry} {bytes : List UInt8}
    (hpath : path ≠ "") (h : entry.Holds bytes) :
    (limits.fileSize < bytes.length →
      (ofFile limits path (.file entry)).Refused (.fileTooLarge bytes.length limits.fileSize)) ∧
    (bytes.length ≤ limits.fileSize → bytes = [] →
      (ofFile limits path (.file entry)).Refused (.emptyFile entry.canonical)) ∧
    (bytes.length ≤ limits.fileSize → bytes ≠ [] →
      (decodeUtf8 bytes = none →
        (ofFile limits path (.file entry)).Refused (.invalidEncoding entry.canonical)) ∧
      ∀ text, decodeUtf8 bytes = some text →
        (limits.lineCount < (plainLines text).length →
          (ofFile limits path (.file entry)).Refused
            (.tooManyLines (plainLines text).length limits.lineCount)) ∧
        ((plainLines text).length ≤ limits.lineCount →
          (ofFile limits path (.file entry)).Converts limits text bytes.length)) := by
  refine ⟨fun hlarge => ?_, fun _ hempty => ?_, fun hsize hne => ⟨fun hnone => ?_, ?_⟩⟩
  · exact refused_of_ofEntry hpath (ModelFile.ofEntry_of_tooLarge h hlarge)
  · exact refused_of_ofEntry hpath (ModelFile.ofEntry_of_empty h hempty)
  · exact refused_of_ofEntry hpath (ModelFile.ofEntry_of_none h hsize hne hnone)
  · intro text hsome
    have hentry := ModelFile.ofEntry_of_some h hsize hne hsome
    refine ⟨fun hmany => ?_, fun hlines => ?_⟩
    · rw [if_pos hmany] at hentry
      exact refused_of_ofEntry hpath hentry
    · rw [if_neg (by omega)] at hentry
      refine converts_of_ofEntry hpath hentry ?_ hlines
      rw [plainLines_eq_linesOf, List.length_map, ofText_eq_map_linesOf, List.length_map]

/-- A file whose lines end in different ways, the last one not at all. -/
def mixedEnds : List UInt8 :=
  encodeUtf8 "<ComponentName> a <NoOpComponent>\r\n\n</NoOpComponent>".toList

theorem ofFile_admits_mixedEnds :
    (ofFile .standard "m" (.file ⟨"/m", mixedEnds.length, none, .ok mixedEnds⟩)).Converts .standard
        "<ComponentName> a <NoOpComponent>\r\n\n</NoOpComponent>".toList mixedEnds.length := by
  have hholds : FileEntry.Holds ⟨"/m", mixedEnds.length, none, .ok mixedEnds⟩ mixedEnds :=
    ⟨rfl, rfl⟩
  have hpath : "m" ≠ "" := by decide
  obtain ⟨-, -, hdecoded⟩ := ofFile_admits .standard hpath hholds
  exact ((hdecoded (by decide) (by decide)).2 _ (decodeUtf8_encodeUtf8 _)).2 (by decide)

end Run

end NnetText
