import NnetText.Proofs.Words

/-!
# Lines of bytes

A stream is cut into lines first and decoded line by line, a text is decoded first and cut into
lines afterwards. Both lead to the same lines, because the byte that ends a line is no part of
any character but the line feed (`NnetText.feed_mem_utf8EncodeChar`): cutting the bytes of a text
is cutting the text (`NnetText.splitAfter_encodeUtf8`).

A stream may fail, and it may hand over bytes that are not UTF-8. In both cases there is a first
line that cannot be read. The lines in front of it are `NnetText.soundLines`, and what a reader
gets to see of the stream is their text and, if it asks for more, a line that cannot be had
(`NnetText.ofStream_cases`). Where no delivery fails these are the lines of the bytes that can be
decoded, `NnetText.readableLines` (`NnetText.ofBytes_cases`).
-/

namespace NnetText

/-! ### Encoding -/

/-- The bytes of a text in UTF-8. -/
def encodeUtf8 (text : List Char) : List UInt8 := text.flatMap String.utf8EncodeChar

@[simp] theorem encodeUtf8_append (as bs : List Char) :
    encodeUtf8 (as ++ bs) = encodeUtf8 as ++ encodeUtf8 bs := List.flatMap_append

/-- The string with given bytes, when these are the bytes of a text. -/
theorem fromUTF8_eq_ofList {bytes : ByteArray} {text : List Char}
    (h : bytes = text.utf8Encode) : String.fromUTF8 bytes ⟨text, h⟩ = String.ofList text := by
  apply String.toByteArray_inj.mp
  rw [String.toByteArray_ofList]
  exact h

/-- **Decoding undoes encoding**, and nothing else can be decoded. -/
theorem decodeUtf8_eq_some_iff {bytes : List UInt8} {text : List Char} :
    decodeUtf8 bytes = some text ↔ bytes = encodeUtf8 text := by
  have harray : (⟨bytes.toArray⟩ : ByteArray) = bytes.toByteArray := by
    rw [ByteArray.ext_iff, List.data_toByteArray]
  have hencode : ∀ cs : List Char, bytes.toByteArray = cs.utf8Encode ↔ bytes = encodeUtf8 cs :=
    fun cs => List.toByteArray_inj
  rw [decodeUtf8, harray, String.fromUTF8?]
  constructor
  · intro h
    split at h
    · rename_i hvalid
      obtain ⟨cs, hcs⟩ := hvalid
      rw [Option.map_some, fromUTF8_eq_ofList hcs, String.toList_ofList] at h
      exact (hencode text).mp (Option.some.inj h ▸ hcs)
    · cases h
  · intro h
    have htext := (hencode text).mpr h
    rw [dif_pos ⟨text, htext⟩, Option.map_some, fromUTF8_eq_ofList htext, String.toList_ofList]

theorem decodeUtf8_encodeUtf8 (text : List Char) : decodeUtf8 (encodeUtf8 text) = some text :=
  decodeUtf8_eq_some_iff.mpr rfl

/-- **The byte of a line feed is part of no other character.** -/
theorem feed_mem_utf8EncodeChar {c : Char} : 10 ∈ String.utf8EncodeChar c ↔ c = '\n' := by
  have hbyte : ∀ n, n < 256 → (10 = UInt8.ofNat n ↔ n = 10) := by
    intro n hn
    rw [← UInt8.toNat_inj, UInt8.toNat_ofNat_of_lt' hn]
    exact eq_comm
  have hfeed : c = '\n' ↔ c.val.toNat = 10 := by
    rw [Char.ext_iff, ← UInt32.toNat_inj]
    rfl
  rw [hfeed, String.utf8EncodeChar]
  -- one case for each length of the encoding; from two bytes on, all of them are large
  split
  · rw [List.mem_singleton, hbyte _ (by omega)]
  · split
    · simp only [List.mem_cons, List.not_mem_nil, or_false]
      rw [hbyte _ (by omega), hbyte _ (by omega)]
      omega
    · split
      · simp only [List.mem_cons, List.not_mem_nil, or_false]
        rw [hbyte _ (by omega), hbyte _ (by omega), hbyte _ (by omega)]
        omega
      · simp only [List.mem_cons, List.not_mem_nil, or_false]
        rw [hbyte _ (by omega), hbyte _ (by omega), hbyte _ (by omega), hbyte _ (by omega)]
        omega

theorem feed_mem_encodeUtf8 {text : List Char} : 10 ∈ encodeUtf8 text ↔ '\n' ∈ text := by
  simp only [encodeUtf8, List.mem_flatMap, feed_mem_utf8EncodeChar, exists_eq_right]

/-! ### Lines of an encoded text -/

theorem separator_eq_false_of_not_mem {bytes : List UInt8} (h : 10 ∉ bytes) :
    ∀ b ∈ bytes, (b == 10) = false :=
  fun _ hb => beq_eq_false_iff_ne.mpr (ne_of_mem_of_not_mem hb h)

/-- **Cutting the bytes of a text is cutting the text.** -/
theorem splitAfter_encodeUtf8 (text : List Char) :
    splitAfter (· == 10) (encodeUtf8 text) = (linesOf text).map encodeUtf8 := by
  induction text using lineInduction with
  | last line hline =>
    have hfeed : 10 ∉ encodeUtf8 line := fun h => hline (feed_mem_encodeUtf8.mp h)
    rcases eq_or_ne line [] with rfl | hne
    · rfl
    · have hne' : encodeUtf8 line ≠ [] := by
        obtain ⟨c, cs, rfl⟩ := List.exists_cons_of_ne_nil hne
        simp [encodeUtf8]
      rw [linesOf_of_no_feed hne hline,
        splitAfter_eq_singleton hne' (separator_eq_false_of_not_mem hfeed), List.map_singleton]
  | line line rest hline ih =>
    have hfeed : 10 ∉ encodeUtf8 line := fun h => hline (feed_mem_encodeUtf8.mp h)
    have hcons : encodeUtf8 ('\n' :: rest) = 10 :: encodeUtf8 rest := rfl
    have hlast : encodeUtf8 ['\n'] = [10] := rfl
    rw [linesOf_append_feed hline, encodeUtf8_append, hcons,
      splitAfter_append_cons (separator_eq_false_of_not_mem hfeed) rfl, ih, List.map_cons,
      encodeUtf8_append, hlast]

theorem ofByteLine_encodeUtf8 (line : List Char) :
    SourceLine.ofByteLine (encodeUtf8 line) = .text line := by
  rw [SourceLine.ofByteLine, decodeUtf8_encodeUtf8]

/-! ### Lines of a stream -/

/-- Whether bytes are UTF-8. -/
def isUtf8 (bytes : List UInt8) : Bool := (decodeUtf8 bytes).isSome

/-- **The lines of a stream before the first that is not UTF-8.** -/
def readableLines (bytes : List UInt8) : List (List UInt8) :=
  (splitAfter (· == 10) bytes).takeWhile isUtf8

/-- The bytes among what a stream handed over. -/
def handedBytes (line : List Delivery) : List UInt8 := line.filterMap Except.toOption

/-- Whether a line was handed over without a failure and is UTF-8. -/
def isSound (line : List Delivery) : Bool :=
  (line.findSome? Delivery.failure?).isNone && isUtf8 (handedBytes line)

/-- **The lines of a stream before the first that cannot be read**, be it for a failure or
because it is not UTF-8. -/
def soundLines (stream : List Delivery) : List (List UInt8) :=
  ((splitAfter Delivery.endsLine stream).takeWhile isSound).map handedBytes

theorem isSound_iff {line : List Delivery} :
    isSound line = true ↔
      line.findSome? Delivery.failure? = none ∧ isUtf8 (handedBytes line) = true := by
  rw [isSound, Bool.and_eq_true, Option.isNone_iff_eq_none]

/-- The lines in front of the first that is not sound are sound. -/
theorem isSound_of_mem_takeWhile {line : List Delivery} {lines : List (List Delivery)}
    (h : line ∈ lines.takeWhile isSound) :
    line.findSome? Delivery.failure? = none ∧ isUtf8 (handedBytes line) = true :=
  isSound_iff.mp (List.all_eq_true.mp List.all_takeWhile line h)

theorem handedBytes_map_ok (bytes : List UInt8) : handedBytes (bytes.map .ok) = bytes := by
  rw [handedBytes, List.filterMap_map]
  exact List.filterMap_some

theorem failure_map_ok (bytes : List UInt8) :
    (bytes.map Except.ok).findSome? Delivery.failure? = none := by
  rw [List.findSome?_eq_none_iff]
  intro delivery hmem
  obtain ⟨byte, -, rfl⟩ := List.mem_map.mp hmem
  rfl

theorem isSound_map_ok (bytes : List UInt8) : isSound (bytes.map .ok) = isUtf8 bytes := by
  rw [isSound, failure_map_ok, handedBytes_map_ok]
  rfl

/-- Without a failure a line is made of its bytes. -/
theorem map_ok_handedBytes {line : List Delivery}
    (h : line.findSome? Delivery.failure? = none) : (handedBytes line).map .ok = line := by
  induction line with
  | nil => rfl
  | cons delivery line ih =>
    cases delivery with
    | ok byte => exact congrArg (Except.ok byte :: ·) (ih h)
    | error reason => cases h

theorem splitAfter_map_ok (bytes : List UInt8) :
    splitAfter Delivery.endsLine (bytes.map .ok) =
      (splitAfter (· == 10) bytes).map (List.map .ok) :=
  splitAfter_map _ bytes

/-- A stream that does not fail has the sound lines of its bytes. -/
theorem soundLines_map_ok (bytes : List UInt8) :
    soundLines (bytes.map .ok) = readableLines bytes := by
  have hsound : isSound ∘ List.map Except.ok = isUtf8 := funext isSound_map_ok
  have hbytes : handedBytes ∘ List.map Except.ok = id := funext handedBytes_map_ok
  rw [soundLines, splitAfter_map_ok, List.takeWhile_map, hsound, List.map_map, hbytes,
    List.map_id, readableLines]

theorem ofDeliveries_map_ok (bytes : List UInt8) :
    SourceLine.ofDeliveries (bytes.map .ok) = SourceLine.ofByteLine bytes := by
  rw [SourceLine.ofDeliveries, failure_map_ok]
  exact congrArg SourceLine.ofByteLine (handedBytes_map_ok bytes)

/-- The lines of bytes that are handed over without a failure. -/
theorem ofStream_map_ok (bytes : List UInt8) :
    SourceLine.ofStream (bytes.map .ok) =
      (splitAfter (· == 10) bytes).map SourceLine.ofByteLine := by
  rw [SourceLine.ofStream, splitAfter_map_ok, List.map_map]
  exact List.map_congr_left fun line _ => ofDeliveries_map_ok line

theorem map_ofByteLine_encodeUtf8 (text : List Char) :
    ((linesOf text).map encodeUtf8).map SourceLine.ofByteLine = SourceLine.ofText text := by
  rw [List.map_map, ofText_eq_map_linesOf]
  exact List.map_congr_left fun line _ => ofByteLine_encodeUtf8 line

/-- The lines of the bytes of a text are the lines of the text. -/
theorem ofStream_encodeUtf8 (text : List Char) :
    SourceLine.ofStream ((encodeUtf8 text).map .ok) = SourceLine.ofText text := by
  rw [ofStream_map_ok, splitAfter_encodeUtf8, map_ofByteLine_encodeUtf8]

/-- What becomes of a line that is not sound. -/
theorem ofDeliveries_of_not_isSound {line : List Delivery} (h : isSound line = false) :
    ∃ reason, SourceLine.ofDeliveries line = .failed reason := by
  rw [SourceLine.ofDeliveries]
  cases hfailure : line.findSome? Delivery.failure? with
  | some reason => exact ⟨reason, rfl⟩
  | none =>
    have hnone : decodeUtf8 (handedBytes line) = none := by
      simpa [isSound, hfailure, isUtf8] using h
    refine ⟨SourceLine.malformedText, ?_⟩
    change SourceLine.ofByteLine (handedBytes line) = _
    rw [SourceLine.ofByteLine, hnone]

/-- Lines that can be decoded can be decoded together. -/
theorem exists_flatten_eq_encodeUtf8 {lines : List (List UInt8)}
    (h : ∀ line ∈ lines, isUtf8 line = true) : ∃ text, lines.flatten = encodeUtf8 text := by
  induction lines with
  | nil => exact ⟨[], rfl⟩
  | cons line lines ih =>
    obtain ⟨first, hfirst⟩ := Option.isSome_iff_exists.mp (h line List.mem_cons_self)
    obtain ⟨text, htext⟩ := ih fun l hl => h l (List.mem_cons_of_mem _ hl)
    refine ⟨first ++ text, ?_⟩
    rw [List.flatten_cons, htext, encodeUtf8_append, decodeUtf8_eq_some_iff.mp hfirst]

/-- The sound lines of a stream as they were handed over. -/
theorem takeWhile_isSound (stream : List Delivery) :
    (splitAfter Delivery.endsLine stream).takeWhile isSound =
      (soundLines stream).map (List.map .ok) := by
  rw [soundLines, List.map_map]
  refine (List.map_id _).symm.trans (List.map_congr_left fun line hline => ?_)
  exact (map_ok_handedBytes (isSound_of_mem_takeWhile hline).1).symm

/-- The lines in front of the first bad one, joined again, are cut into just these lines. -/
theorem splitAfter_flatten_soundLines (stream : List Delivery) :
    splitAfter (· == 10) (soundLines stream).flatten = soundLines stream := by
  have htake : (soundLines stream).map (List.map Except.ok) =
      (splitAfter Delivery.endsLine stream).take
        ((splitAfter Delivery.endsLine stream).takeWhile isSound).length := by
    rw [← takeWhile_isSound]
    exact List.prefix_iff_eq_take.mp (List.takeWhile_prefix _)
  have hcut : splitAfter Delivery.endsLine ((soundLines stream).map (List.map Except.ok)).flatten =
      (soundLines stream).map (List.map Except.ok) := by
    rw [htake]
    exact splitAfter_flatten_take _ stream
  rw [← List.map_flatten, splitAfter_map_ok] at hcut
  have hok : Function.Injective (Except.ok : UInt8 → Delivery) := fun _ _ h => Except.ok.inj h
  exact (List.map_injective_iff.mpr (List.map_injective_iff.mpr hok)) hcut

/-- **What a stream holds**: a text, and either nothing more or a line that cannot be read and
whatever follows it. -/
theorem ofStream_cases (stream : List Delivery) :
    ∃ text, decodeUtf8 (soundLines stream).flatten = some text ∧
      (linesOf text).length = (soundLines stream).length ∧
      (SourceLine.ofStream stream = SourceLine.ofText text ∨
        ∃ reason rest,
          SourceLine.ofStream stream = SourceLine.ofText text ++ .failed reason :: rest) := by
  have hgood : ∀ line ∈ soundLines stream, isUtf8 line = true := by
    intro line hline
    obtain ⟨handed, hhanded, rfl⟩ := List.mem_map.mp hline
    exact (isSound_of_mem_takeWhile hhanded).2
  obtain ⟨text, htext⟩ := exists_flatten_eq_encodeUtf8 hgood
  have hsplit := splitAfter_flatten_soundLines stream
  rw [htext, splitAfter_encodeUtf8] at hsplit
  have hlines : splitAfter Delivery.endsLine stream = (soundLines stream).map (List.map .ok) ++
      (splitAfter Delivery.endsLine stream).dropWhile isSound := by
    rw [← takeWhile_isSound]
    exact List.takeWhile_append_dropWhile.symm
  have hsound : ((soundLines stream).map (List.map Except.ok)).map SourceLine.ofDeliveries =
      SourceLine.ofText text := by
    rw [← map_ofByteLine_encodeUtf8, hsplit, List.map_map]
    exact List.map_congr_left fun line _ => ofDeliveries_map_ok line
  refine ⟨text, decodeUtf8_eq_some_iff.mpr htext, ?_, ?_⟩
  · rw [← hsplit, List.length_map]
  · rw [SourceLine.ofStream, hlines, List.map_append, hsound]
    rcases hrest : (splitAfter Delivery.endsLine stream).dropWhile isSound with _ | ⟨bad, rest⟩
    · exact Or.inl (List.append_nil _)
    · have hbad : isSound bad = false := by
        have hhead := List.head?_dropWhile_not isSound (splitAfter Delivery.endsLine stream)
        simpa [hrest] using hhead
      obtain ⟨reason, hreason⟩ := ofDeliveries_of_not_isSound hbad
      exact Or.inr ⟨reason, rest.map SourceLine.ofDeliveries, by rw [List.map_cons, hreason]⟩

theorem failed_not_mem_ofText (reason : String) (text : List Char) :
    SourceLine.failed reason ∉ SourceLine.ofText text := by
  simp [SourceLine.ofText]

theorem reason_of_mem_ofStream_map_ok {bytes : List UInt8} {reason : String}
    (h : SourceLine.failed reason ∈ SourceLine.ofStream (bytes.map .ok)) :
    reason = SourceLine.malformedText := by
  rw [ofStream_map_ok] at h
  obtain ⟨line, -, hline⟩ := List.mem_map.mp h
  rw [SourceLine.ofByteLine] at hline
  split at hline <;> cases hline
  rfl

/-- **What bytes hold that are handed over without a failure**: they are UTF-8 or have a line
that is not. -/
theorem ofBytes_cases (bytes : List UInt8) :
    ∃ text, decodeUtf8 (readableLines bytes).flatten = some text ∧
      (linesOf text).length = (readableLines bytes).length ∧
      (decodeUtf8 bytes = some text ∧
          SourceLine.ofStream (bytes.map .ok) = SourceLine.ofText text ∨
        decodeUtf8 bytes = none ∧ ∃ rest, SourceLine.ofStream (bytes.map .ok) =
          SourceLine.ofText text ++ .failed SourceLine.malformedText :: rest) := by
  obtain ⟨text, htext, hlength, hlines⟩ := ofStream_cases (bytes.map .ok)
  rw [soundLines_map_ok] at htext hlength
  refine ⟨text, htext, hlength, ?_⟩
  rcases hlines with hlines | ⟨reason, rest, hlines⟩
  · -- all lines are there, and so the lines in front of the first bad one are all there are
    have hcount : (readableLines bytes).length = (splitAfter (· == 10) bytes).length := by
      have hcounts := congrArg List.length hlines
      rw [ofStream_map_ok, ofText_eq_map_linesOf, List.length_map, List.length_map] at hcounts
      exact hlength.symm.trans hcounts.symm
    have hall : readableLines bytes = splitAfter (· == 10) bytes :=
      (List.takeWhile_prefix _).eq_of_length hcount
    rw [hall, flatten_splitAfter] at htext
    exact Or.inl ⟨htext, hlines⟩
  · have hmem : SourceLine.failed reason ∈ SourceLine.ofStream (bytes.map .ok) := by
      rw [hlines]
      simp
    refine Or.inr ⟨?_, rest, reason_of_mem_ofStream_map_ok hmem ▸ hlines⟩
    -- the lines of an encoded text can all be decoded
    rw [Option.eq_none_iff_forall_ne_some]
    intro whole hwhole
    rw [decodeUtf8_eq_some_iff.mp hwhole, ofStream_encodeUtf8] at hmem
    exact failed_not_mem_ofText reason whole hmem

end NnetText
