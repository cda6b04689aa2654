import Stackwright.Stream

/-!
# Lines of bytes

A reader of lines does not know the text that it reads. It looks for the ends of lines among the
bytes, and decodes one line after the other (`Stream.answers`). What is shown of a source is cut
the other way round: it is decoded first, and then the ends of lines are looked for among the
characters.

Both come to the same lines (`Stream.feed_eq`), however lines end, as the bytes that end a line
stand for nothing else than the characters that do. And so a stream that can be read line by line
to its end can also be decoded as a whole (`Stream.eq_ofText_of_failure_eq_none`).
-/

namespace Stackwright

/-! ## Cutting what is encoded -/

namespace Text

variable {α β : Type} [BEq α] [LawfulBEq α] [BEq β] [LawfulBEq β]

/-- What is in front of the first separator belongs to the first piece. -/
theorem breakAt_append_of_not_mem {sep : α} {front : List α} (h : sep ∉ front) (cs : List α) :
    breakAt sep (front ++ cs) =
      match breakAt sep cs with
      | ([], rest) => ([], front ++ rest)
      | (piece :: closed, rest) => ((front ++ piece) :: closed, rest) := by
  induction front with
  | nil =>
    rw [List.nil_append]
    generalize breakAt sep cs = parts
    obtain ⟨_ | ⟨piece, closed⟩, rest⟩ := parts <;> rfl
  | cons c front ih =>
    rw [List.mem_cons, not_or] at h
    obtain ⟨other, later⟩ := h
    rw [List.cons_append, breakAt, if_neg (by simpa using Ne.symm other), ih later]
    generalize breakAt sep cs = parts
    obtain ⟨_ | ⟨piece, closed⟩, rest⟩ := parts <;> rfl

section Encoding

variable {encode : α → List β} {sep : α} {code : β}

/-- If the code of a separator is a separator among the codes, and is part of no other code, then
it makes no difference whether a list is cut before or after it is encoded. -/
theorem breakAt_flatMap (self : encode sep = [code]) (only : ∀ c, code ∈ encode c → c = sep)
    (cs : List α) :
    breakAt code (cs.flatMap encode) =
      ((breakAt sep cs).1.map (List.flatMap encode), (breakAt sep cs).2.flatMap encode) := by
  induction cs with
  | nil => rfl
  | cons c cs ih =>
    rw [List.flatMap_cons]
    by_cases same : c = sep
    · rw [same, self, List.singleton_append, breakAt, if_pos (beq_self_eq_true code), ih, breakAt,
        if_pos (beq_self_eq_true sep)]
      rfl
    · rw [breakAt_append_of_not_mem fun mem => same (only c mem), ih, breakAt,
        if_neg (by simpa using same)]
      generalize breakAt sep cs = parts
      obtain ⟨_ | ⟨piece, closed⟩, rest⟩ := parts <;> rfl

theorem dropLastIf_flatMap (self : encode sep = [code]) (only : ∀ c, code ∈ encode c → c = sep)
    (nonempty : ∀ c, encode c ≠ []) (cs : List α) :
    dropLastIf code (cs.flatMap encode) = (dropLastIf sep cs).flatMap encode := by
  rcases List.eq_nil_or_concat cs with rfl | ⟨front, c, rfl⟩
  · rfl
  · rw [List.concat_eq_append, List.flatMap_append, List.flatMap_singleton]
    by_cases same : c = sep
    · simp [dropLastIf, same, self]
    · have last : (encode c).getLast? ≠ some code := fun last =>
        same (only c (List.mem_of_getLast? last))
      rw [dropLastIf, dropLastIf, if_neg, if_neg]
      · rw [List.flatMap_append, List.flatMap_singleton]
      · simpa using same
      · obtain ⟨z, found⟩ := Option.ne_none_iff_exists'.mp
          (mt List.getLast?_eq_none_iff.mp (nonempty c))
        rw [found] at last
        rw [List.getLast?_append, found, Option.some_or]
        simpa using last

end Encoding

end Text

/-! ## Characters and their bytes -/

namespace Text

/-- A byte below 128 stands for a character by itself and is part of no other: all bytes of a longer
code are 128 or greater. -/
theorem eq_of_mem_utf8EncodeChar {b : UInt8} {c : Char} (mem : b ∈ String.utf8EncodeChar c)
    (ascii : b.toNat < 128) : c.toNat = b.toNat := by
  have byte : ∀ n, (UInt8.ofNat n).toNat = n % 256 := fun n => UInt8.toNat_ofNat' ..
  have value : c.val.toNat = c.toNat := rfl
  unfold String.utf8EncodeChar at mem
  dsimp only at mem
  split at mem
  · obtain rfl := List.mem_singleton.mp mem
    rw [byte] at ascii ⊢
    omega
  · split at mem
    · simp only [List.mem_cons, List.not_mem_nil, or_false] at mem
      rcases mem with rfl | rfl <;> rw [byte] at ascii <;> omega
    · split at mem
      · simp only [List.mem_cons, List.not_mem_nil, or_false] at mem
        rcases mem with rfl | rfl | rfl <;> rw [byte] at ascii <;> omega
      · simp only [List.mem_cons, List.not_mem_nil, or_false] at mem
        rcases mem with rfl | rfl | rfl | rfl <;> rw [byte] at ascii <;> omega

/-- The bytes of a text. -/
def bytes (cs : List Char) : List UInt8 := cs.flatMap String.utf8EncodeChar

theorem eq_newline_of_mem {c : Char} (mem : 10 ∈ String.utf8EncodeChar c) : c = '\n' :=
  Char.toNat_inj.mp (eq_of_mem_utf8EncodeChar mem (by decide))

theorem eq_return_of_mem {c : Char} (mem : 13 ∈ String.utf8EncodeChar c) : c = '\r' :=
  Char.toNat_inj.mp (eq_of_mem_utf8EncodeChar mem (by decide))

/-- Lines end alike among bytes and among characters. -/
theorem breakAt_bytes (cs : List Char) :
    breakAt 10 (bytes cs) = ((breakAt '\n' cs).1.map bytes, bytes (breakAt '\n' cs).2) :=
  have self : String.utf8EncodeChar '\n' = [10] := rfl
  breakAt_flatMap self (fun _ => eq_newline_of_mem) cs

theorem dropLastIf_bytes (cs : List Char) :
    dropLastIf 13 (bytes cs) = bytes (dropLastIf '\r' cs) :=
  have self : String.utf8EncodeChar '\r' = [13] := rfl
  dropLastIf_flatMap self (fun _ => eq_return_of_mem) (fun _ => String.utf8EncodeChar_ne_nil) cs

end Text

theorem toList_byteArray (bytes : ByteArray) : bytes.toList = bytes.data.toList := by
  have loop : ∀ i read, ByteArray.toList.loop bytes i read =
      read.reverse ++ bytes.data.toList.drop i := by
    intro i read
    fun_induction ByteArray.toList.loop bytes i read with
    | case1 i read inside ih =>
      have here : i < bytes.data.toList.length := by simpa using inside
      rw [ih, List.drop_eq_getElem_cons here]
      simp [ByteArray.get!, inside]
    | case2 i read outside =>
      rw [List.drop_eq_nil_of_le (by simpa using Nat.le_of_not_lt outside), List.append_nil]
  rw [ByteArray.toList, loop]
  simp

theorem toList_toUTF8 (text : String) : text.toUTF8.toList = Text.bytes text.toList := by
  rw [toList_byteArray, String.toUTF8_eq_toByteArray, ← String.utf8Encode_toList]
  exact List.toList_data_toByteArray

theorem fromUTF8?_toUTF8 (text : String) : String.fromUTF8? text.toUTF8 = some text :=
  dif_pos text.isValidUTF8

/-- What can be decoded is what its text is encoded as. -/
theorem eq_toUTF8_of_fromUTF8? {bytes : ByteArray} {text : String}
    (decoded : String.fromUTF8? bytes = some text) : bytes = text.toUTF8 := by
  unfold String.fromUTF8? at decoded
  split at decoded
  · cases decoded
    rfl
  · cases decoded

/-! ## The reader of lines -/

namespace Stream

/-- A line of bytes as text, if it is one. -/
def decodeLine (bytes : List UInt8) : Except IoError String :=
  match String.fromUTF8? ⟨bytes.toArray⟩ with
  | some line => .ok line
  | none => .error .invalidUtf8

/-- What a reader of lines gets that looks at the bytes, when it asks for one line after the other.
A line that is no text is an error, and the next line is there to be asked for. If the device fails,
what follows the last complete line is lost. -/
def answers (s : Stream) : List (Except IoError String) :=
  let (closed, last) := Text.breakAt 10 s.bytes.toList
  closed.map (fun line => decodeLine (Text.dropLastIf 13 line)) ++
    match s.failure with
    | some e => [.error e]
    | none => if last.isEmpty then [] else [decodeLine last]

end Stream

namespace Feed

/-- The lines up to the first failure. -/
def ofAnswers : List (Except IoError String) → Feed
  | [] => ⟨[], none⟩
  | .ok line :: answers =>
    let rest := ofAnswers answers
    ⟨line :: rest.lines, rest.failure⟩
  | .error e :: _ => ⟨[], some e⟩

theorem ofAnswers_append (lines : List String) (answers : List (Except IoError String)) :
    ofAnswers (lines.map .ok ++ answers) =
      ⟨lines ++ (ofAnswers answers).lines, (ofAnswers answers).failure⟩ := by
  induction lines with
  | nil => rfl
  | cons line lines ih => rw [List.map_cons, List.cons_append, ofAnswers, ih]; rfl

/-- Decoding lines stops at the first that is no text. -/
theorem decode_eq (failure : Option IoError) (lines : List (List UInt8)) :
    decode failure lines =
      ofAnswers (lines.map Stream.decodeLine ++ failure.toList.map .error) := by
  induction lines with
  | nil => cases failure <;> rfl
  | cons line lines ih =>
    rw [decode, List.map_cons, List.cons_append, Stream.decodeLine]
    cases String.fromUTF8? ⟨line.toArray⟩ with
    | none => rfl
    | some text =>
      dsimp only
      rw [ofAnswers, ih]

end Feed

namespace Stream

/-- The bytes of characters are decoded as these characters. -/
theorem decodeLine_bytes (cs : List Char) :
    decodeLine (Text.bytes cs) = .ok (String.ofList cs) := by
  have same : (⟨(Text.bytes cs).toArray⟩ : ByteArray) = (String.ofList cs).toUTF8 := by
    rw [String.toUTF8_eq_toByteArray, String.toByteArray_ofList]
    exact ByteArray.ext List.data_toByteArray.symm
  rw [decodeLine, same, fromUTF8?_toUTF8]

/-- If the bytes are a text as a whole, then its lines are what the reader gets. -/
theorem answers_of_toUTF8 (text : String) (failure : Option IoError) :
    answers ⟨text.toUTF8, failure⟩ =
      ((Text.closedLines text.toList).map String.ofList).map .ok ++
        match failure with
        | some e => [.error e]
        | none =>
          if (Text.openLine text.toList).isEmpty then []
          else [.ok (String.ofList (Text.openLine text.toList))] := by
  unfold answers Text.closedLines Text.openLine
  dsimp only
  rw [toList_toUTF8, Text.breakAt_bytes]
  dsimp only
  rw [List.map_map, List.map_map, List.map_map]
  congr 1
  · refine List.map_congr_left fun line _ => ?_
    simp only [Function.comp_apply]
    rw [Text.dropLastIf_bytes, decodeLine_bytes]
  · cases failure with
    | some e => rfl
    | none =>
      dsimp only
      rw [decodeLine_bytes]
      cases (Text.breakAt '\n' text.toList).2 with
      | nil => rfl
      | cons c cs =>
        have some : (Text.bytes (c :: cs)).isEmpty = false := by
          rw [List.isEmpty_eq_false_iff, Text.bytes, List.flatMap_cons]
          exact List.append_ne_nil_of_left_ne_nil String.utf8EncodeChar_ne_nil _
        rw [some]
        rfl

theorem answers_ofText (text : String) :
    answers (ofText text) = (Text.lines text).map .ok := by
  rw [ofText, answers_of_toUTF8, Text.lines, List.map_append]
  dsimp only
  rw [List.map_append]
  congr 1
  cases (Text.openLine text.toList).isEmpty <;> rfl

/-- **Whether bytes or characters are cut into lines makes no difference.** -/
theorem feed_eq (s : Stream) : s.feed = .ofAnswers s.answers := by
  obtain ⟨bytes, failure⟩ := s
  unfold feed
  cases decoded : String.fromUTF8? bytes with
  | some text =>
    obtain rfl := eq_toUTF8_of_fromUTF8? decoded
    cases failure with
    | some e =>
      rw [answers_of_toUTF8]
      simp only [Feed.ofAnswers_append, Feed.ofAnswers, List.append_nil]
    | none =>
      have lines := Feed.ofAnswers_append (Text.lines text) []
      rw [List.append_nil] at lines
      rw [← ofText, answers_ofText, lines]
      simp only [Feed.ofAnswers, List.append_nil]
      rfl
  | none =>
    unfold answers
    dsimp only
    cases failure with
    | some e =>
      dsimp only
      rw [Feed.decode_eq, List.map_map]
      rfl
    | none =>
      dsimp only
      rw [Feed.decode_eq, List.map_append, List.map_map, Option.toList_none, List.map_nil,
        List.append_nil]
      cases (Text.breakAt 10 bytes.toList).2.isEmpty <;> rfl

end Stream

/-! ## Streams that are texts -/

namespace Text

/-- Bytes that stand for characters. -/
def Encodes (line : List UInt8) : Prop := ∃ cs, line = bytes cs

theorem Encodes.append {line rest : List UInt8} (h : Encodes line) (later : Encodes rest) :
    Encodes (line ++ rest) := by
  obtain ⟨cs, rfl⟩ := h
  obtain ⟨ds, rfl⟩ := later
  exact ⟨cs ++ ds, List.flatMap_append.symm⟩

theorem encodes_newline : Encodes [10] := ⟨['\n'], rfl⟩

theorem encodes_return : Encodes [13] := ⟨['\r'], rfl⟩

theorem Encodes.of_dropLastIf {line : List UInt8} (h : Encodes (dropLastIf 13 line)) :
    Encodes line := by
  unfold dropLastIf at h
  split at h
  · next last =>
    obtain ⟨front, rfl⟩ := List.getLast?_eq_some_iff.mp (beq_iff_eq.mp last)
    rw [List.dropLast_concat] at h
    exact h.append encodes_return
  · exact h

theorem Encodes.flatMap {closed : List (List UInt8)} (h : ∀ line ∈ closed, Encodes line) :
    Encodes (closed.flatMap (· ++ [10])) := by
  induction closed with
  | nil => exact ⟨[], rfl⟩
  | cons line closed ih =>
    obtain ⟨first, later⟩ := List.forall_mem_cons.mp h
    exact (first.append encodes_newline).append (ih later)

end Text

namespace Feed

/-- If lines end without a failure, then none was answered. -/
theorem not_mem_of_failure_eq_none {answers : List (Except IoError String)}
    (whole : (ofAnswers answers).failure = none) (e : IoError) : .error e ∉ answers := by
  induction answers with
  | nil => exact List.not_mem_nil
  | cons answer answers ih =>
    cases answer with
    | error e' => cases whole
    | ok line =>
      rintro (_ | ⟨_, mem⟩)
      exact ih whole mem

end Feed

namespace Stream

theorem text_eq_ok_iff {s : Stream} {text : String} : s.text = .ok text ↔ s = ofText text := by
  constructor
  · intro read
    obtain ⟨bytes, failure⟩ := s
    cases failure with
    | some e => cases read
    | none =>
      cases decoded : String.fromUTF8? bytes with
      | none => simp [Stream.text, decoded] at read
      | some text' =>
        obtain rfl : text' = text := by simpa [Stream.text, decoded] using read
        rw [eq_toUTF8_of_fromUTF8? decoded]
        rfl
  · rintro rfl
    simp only [Stream.text, ofText, fromUTF8?_toUTF8]

/-- **A stream whose lines can all be read is a text.** -/
theorem eq_ofText_of_failure_eq_none {s : Stream} (whole : s.feed.failure = none) :
    ∃ text, s = ofText text := by
  rw [feed_eq] at whole
  have noError := Feed.not_mem_of_failure_eq_none whole
  have encodes : ∀ line, decodeLine line ∈ s.answers → Text.Encodes line := by
    intro line mem
    unfold decodeLine at mem
    cases decoded : String.fromUTF8? ⟨line.toArray⟩ with
    | none =>
      rw [decoded] at mem
      exact absurd mem (noError _)
    | some text =>
      refine ⟨text.toList, ?_⟩
      rw [← toList_toUTF8, ← eq_toUTF8_of_fromUTF8? decoded, toList_byteArray]
  obtain ⟨bytes, failure⟩ := s
  cases failure with
  | some e => exact absurd (List.mem_append_right _ List.mem_cons_self) (noError e)
  | none =>
    unfold answers at encodes
    dsimp only at encodes
    have closed : ∀ line ∈ (Text.breakAt 10 bytes.toList).1, Text.Encodes line :=
      fun line mem => (encodes _ (List.mem_append_left _ (List.mem_map_of_mem mem))).of_dropLastIf
    have last : Text.Encodes (Text.breakAt 10 bytes.toList).2 := by
      cases rest : (Text.breakAt 10 bytes.toList).2 with
      | nil => exact ⟨[], rfl⟩
      | cons b bs =>
        rw [rest] at encodes
        exact encodes _ (List.mem_append_right _ List.mem_cons_self)
    obtain ⟨cs, all⟩ := (Text.Encodes.flatMap closed).append last
    rw [Text.flatMap_breakAt] at all
    refine ⟨String.ofList cs, congrArg (Stream.mk · none) (ByteArray.ext (Array.toList_inj.mp ?_))⟩
    rw [← toList_byteArray, ← toList_byteArray, toList_toUTF8, String.toList_ofList, all]

end Stream

end Stackwright
