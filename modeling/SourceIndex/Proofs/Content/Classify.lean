import SourceIndex.Content.Basic
import SourceIndex.Proofs.Text.Encoding
/-!
# Classified files

Whether a file is text is decided before it is decoded. Only a suffix of text files lets bytes
through that cannot be decoded, and the text that is decoded has all the bytes of the file.
-/

namespace SourceIndex.Content
open Text (Encoding)

variable {data : Bytes} {path : String}

theorem not_binarySuffixes_of_textSuffixes :
    ∀ suffix ∈ textSuffixes, suffix ∉ binarySuffixes := by
  decide +kernel

theorem isBinary_of_textSuffix (suffix : Path.lowerSuffix path ∈ textSuffixes) :
    isBinary data path = false := by
  have other := not_binarySuffixes_of_textSuffixes _ suffix
  rw [isBinary]
  simp [suffix, other]

theorem isValid_of_not_isBinary (other : Path.lowerSuffix path ∉ textSuffixes)
    (text : isBinary data path = false) : Text.Utf8.isValid data = true := by
  unfold isBinary at text
  simp only [List.contains_eq_mem, other, decide_false, Bool.false_eq_true, if_false] at text
  split at text
  · cases text
  · rw [Bool.or_eq_false_iff, Bool.not_eq_false'] at text
    exact text.2

/-- What is not binary is decoded in the encoding of the mark that it starts with. -/
theorem ofBytes_of_text (text : isBinary data path = false) : ofBytes data path =
    ((Encoding.presumed data).decodeBare (Encoding.unmarked data)).map
      (.text (Encoding.presumed data)) := by
  rw [ofBytes, text, if_neg Bool.false_ne_true]
  simp only [Encoding.detect?_getD, Encoding.decode_presumed]

theorem ofBytes_eq_error_iff : (∃ e, ofBytes data path = .error e) ↔
    isBinary data path = false ∧
      ¬ ∃ s, (Encoding.presumed data).encode s = Encoding.unmarked data := by
  have decodes : ∀ s, (Encoding.presumed data).decodeBare (Encoding.unmarked data) = .ok s ↔
      (Encoding.presumed data).encode s = Encoding.unmarked data := fun s =>
    Encoding.decodeBare_eq_ok_iff (Encoding.presumed_mem data)
  cases binary : isBinary data path with
  | true =>
    rw [ofBytes, if_pos binary]
    simp
  | false =>
    rw [ofBytes_of_text binary]
    simp only [← decodes]
    cases (Encoding.presumed data).decodeBare (Encoding.unmarked data) with
    | error e => simp [Except.map]
    | ok s => simp [Except.map]

theorem encode_of_ofBytes {encoding : Encoding} {content : String}
    (found : ofBytes data path = .ok (.text encoding content)) :
    Encoding.leadingMark data ++ encoding.encode content = data := by
  cases binary : isBinary data path with
  | true =>
    rw [ofBytes, if_pos binary] at found
    cases found
  | false =>
    rw [ofBytes_of_text binary] at found
    cases read : (Encoding.presumed data).decodeBare (Encoding.unmarked data) with
    | error e =>
      rw [read] at found
      cases found
    | ok s =>
      rw [read] at found
      obtain ⟨rfl, rfl⟩ := Content.text.inj (Except.ok.inj found)
      rw [(Encoding.decodeBare_eq_ok_iff (Encoding.presumed_mem data)).mp read,
        Encoding.leadingMark_append_unmarked]

/-- The text of a file is told from its bytes without loss: classifying fails just for the bytes of
a text file that are no text in the encoding of the mark that they start with, and of any text that
it gives the bytes are that mark and the encoded text. -/
theorem classify_lossless (data : Bytes) (path : String) :
    ((∃ e, classify data path = .error e) ↔
      Path.lowerSuffix path ∈ textSuffixes ∧
        ¬ ∃ s, (Encoding.presumed data).encode s = Encoding.unmarked data) ∧
    ∀ found encoding content, classify data path = .ok found →
      found.content = .text encoding content →
      Encoding.leadingMark data ++ encoding.encode content = data := by
  constructor
  · have fails : (∃ e, classify data path = .error e) ↔ ∃ e, ofBytes data path = .error e := by
      rw [classify]
      cases ofBytes data path <;> simp [Except.map]
    rw [fails, ofBytes_eq_error_iff]
    constructor
    · rintro ⟨text, noText⟩
      refine ⟨?_, noText⟩
      by_contra other
      exact noText (Encoding.exists_encode_of_isValid (isValid_of_not_isBinary other text))
    · rintro ⟨suffix, noText⟩
      exact ⟨isBinary_of_textSuffix suffix, noText⟩
  · intro found encoding content classified text
    unfold classify at classified
    cases read : ofBytes data path with
    | error e =>
      rw [read] at classified
      cases classified
    | ok kind =>
      rw [read] at classified
      obtain rfl := Except.ok.inj classified
      obtain rfl : kind = .text encoding content := text
      exact encode_of_ofBytes read

/-- A pair of surrogates after the mark of UTF-16 is read, and half of it is no text. -/
theorem classify_lossless_surrogates :
    (∃ found, classify [0xFF, 0xFE, 0x3D, 0xD8, 0x00, 0xDE] "a.txt" = .ok found ∧
      found.content = .text (.utf16 .little) "😀") ∧
    Encoding.leadingMark [0xFF, 0xFE, 0x3D, 0xD8, 0x00, 0xDE] ++
      Encoding.encode (.utf16 .little) "😀" = [0xFF, 0xFE, 0x3D, 0xD8, 0x00, 0xDE] ∧
    (∃ e, classify [0xFF, 0xFE, 0x3D, 0xD8] "a.txt" = .error e) ∧
    ¬ ∃ s, (Encoding.presumed [0xFF, 0xFE, 0x3D, 0xD8]).encode s = [0x3D, 0xD8] := by
  have read : ofBytes [0xFF, 0xFE, 0x3D, 0xD8, 0x00, 0xDE] "a.txt" =
      .ok (.text (.utf16 .little) "😀") := by decide +kernel
  have classified : classify [0xFF, 0xFE, 0x3D, 0xD8, 0x00, 0xDE] "a.txt" =
      .ok ⟨Digest.Sha256.hash [0xFF, 0xFE, 0x3D, 0xD8, 0x00, 0xDE], 6,
        .text (.utf16 .little) "😀"⟩ := by
    rw [classify, read]
    rfl
  have half : ∃ e, ofBytes [0xFF, 0xFE, 0x3D, 0xD8] "a.txt" = .error e :=
    ⟨⟨"utf-16-le", 0, 1, 0x3D, .unexpectedEnd⟩, by decide +kernel⟩
  obtain ⟨e, fault⟩ := half
  have fails : ∃ e, classify [0xFF, 0xFE, 0x3D, 0xD8] "a.txt" = .error e :=
    ⟨e, by rw [classify, fault]; rfl⟩
  exact ⟨⟨_, classified, rfl⟩, (classify_lossless _ _).2 _ _ _ classified rfl, fails,
    ((classify_lossless _ _).1.mp fails).2⟩

end SourceIndex.Content
