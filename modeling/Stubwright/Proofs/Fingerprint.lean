import Mathlib.Data.List.Basic
import Stubwright.Definition
import Stubwright.Proofs.Source.PrintedCharacters

/-!
# Fingerprints

The bytes that a fingerprint is taken of are the bytes of every path and every text, each ended by a
NUL byte. No path and no printed text holds one of its own, so the files can be read off the bytes
again. Of the digest itself nothing is used but that it is written in 64 digits of lower case.

## Main definitions

* `utf8Bytes` — the bytes of a text
* `GeneratedFile.IsSealable` — a file without NUL bytes

## Main results

* `Codegen.isSealable_of_mem_files` — no generated file holds a NUL byte
* `Codegen.verify_eq_ok_iff` — the fingerprints that a result is verified against
* `Codegen.fingerprint_separates` — a fingerprint is taken of the files and of nothing less
-/

namespace Stubwright

open Source Text

/-! ## Bytes of texts -/

/-- The bytes of a text in UTF-8. -/
def utf8Bytes (text : String) : List UInt8 := text.toUTF8.data.toList

private theorem utf8Bytes_eq (text : String) :
    utf8Bytes text = text.toList.flatMap String.utf8EncodeChar := by
  have hbytes : text.toUTF8 = text.toList.utf8Encode := by
    rw [← String.toByteArray_ofList, String.ofList_toList]
    rfl
  rw [utf8Bytes, hbytes, List.utf8Encode, List.data_toByteArray]

private theorem utf8Bytes_append (s t : String) :
    utf8Bytes (s ++ t) = utf8Bytes s ++ utf8Bytes t := by
  simp [utf8Bytes_eq]

private theorem utf8Bytes_inj {s t : String} (h : utf8Bytes s = utf8Bytes t) : s = t :=
  String.toByteArray_inj.1 (ByteArray.ext (Array.toList_inj.1 h))

/-- The only character with a NUL byte in its encoding is NUL: every byte of a longer encoding
has its highest bit set. -/
theorem eq_nul_of_zero_mem {c : Char} (h : 0 ∈ String.utf8EncodeChar c) : c = '\x00' := by
  have hmem : ∀ ns : List Nat, 0 ∈ ns.map UInt8.ofNat → ∃ n ∈ ns, n % 256 = 0 := by
    intro ns hns
    obtain ⟨n, hn, hzero⟩ := List.mem_map.1 hns
    exact ⟨n, hn, by simpa using congrArg UInt8.toNat hzero⟩
  -- Each branch is an encoding of one length; only the shortest has a byte that can be zero.
  have hcode : c.val.toNat = 0 := by
    unfold String.utf8EncodeChar at h
    simp only at h
    split_ifs at h
    · obtain ⟨n, hn, hzero⟩ := hmem [_] h
      simp only [List.mem_cons, List.not_mem_nil, or_false] at hn
      omega
    · obtain ⟨n, hn, hzero⟩ := hmem [_, _] h
      simp only [List.mem_cons, List.not_mem_nil, or_false] at hn
      omega
    · obtain ⟨n, hn, hzero⟩ := hmem [_, _, _] h
      simp only [List.mem_cons, List.not_mem_nil, or_false] at hn
      omega
    · obtain ⟨n, hn, hzero⟩ := hmem [_, _, _, _] h
      simp only [List.mem_cons, List.not_mem_nil, or_false] at hn
      omega
  exact Char.ext (UInt32.toNat_inj.1 hcode)

private theorem zero_not_mem_utf8Bytes {text : String} (h : '\x00' ∉ text.toList) :
    0 ∉ utf8Bytes text := by
  rw [utf8Bytes_eq]
  intro hmem
  obtain ⟨c, hc, hzero⟩ := List.mem_flatMap.1 hmem
  exact h (eq_nul_of_zero_mem hzero ▸ hc)

/-! ## Sealed files -/

namespace GeneratedFile

/-- A file that holds no NUL byte. -/
def IsSealable (file : GeneratedFile) : Prop :=
  0 ∉ utf8Bytes file.path ∧ 0 ∉ utf8Bytes file.contents

/-- The bytes of a file, with a NUL byte behind its path and behind its contents. -/
def sealedBytes (file : GeneratedFile) : List UInt8 :=
  utf8Bytes file.path ++ 0 :: (utf8Bytes file.contents ++ [0])

end GeneratedFile

/-- What stands in front of the first mark and what stands behind it are told apart. -/
theorem append_mark_inj {α : Type} [BEq α] [LawfulBEq α] {mark : α} {xs ys us vs : List α}
    (hxs : mark ∉ xs) (hys : mark ∉ ys) (h : xs ++ mark :: us = ys ++ mark :: vs) :
    xs = ys ∧ us = vs := by
  have hsplit := congrArg (List.splitOn mark) h
  rw [List.splitOn_append_cons_self_of_not_mem hxs,
    List.splitOn_append_cons_self_of_not_mem hys] at hsplit
  obtain rfl := (List.cons.inj hsplit).1
  exact ⟨rfl, (List.cons.inj (List.append_cancel_left h)).2⟩

/-- Files without NUL bytes are told apart by their sealed bytes. -/
theorem files_eq_of_sealedBytes {xs ys : List GeneratedFile} (hxs : ∀ file ∈ xs, file.IsSealable)
    (hys : ∀ file ∈ ys, file.IsSealable)
    (h : xs.flatMap GeneratedFile.sealedBytes = ys.flatMap GeneratedFile.sealedBytes) :
    xs = ys := by
  induction xs generalizing ys with
  | nil =>
    cases ys with
    | nil => rfl
    | cons y ys => simp [GeneratedFile.sealedBytes] at h
  | cons x xs ih =>
    cases ys with
    | nil => simp [GeneratedFile.sealedBytes] at h
    | cons y ys =>
      obtain ⟨⟨hxpath, hxcontents⟩, hxs⟩ := List.forall_mem_cons.1 hxs
      obtain ⟨⟨hypath, hycontents⟩, hys⟩ := List.forall_mem_cons.1 hys
      simp only [List.flatMap_cons, GeneratedFile.sealedBytes, List.append_assoc,
        List.cons_append, List.nil_append] at h
      obtain ⟨hpath, h⟩ := append_mark_inj hxpath hypath h
      obtain ⟨hcontents, h⟩ := append_mark_inj hxcontents hycontents h
      have hfile : x = y := by
        cases x
        cases y
        rw [GeneratedFile.mk.injEq]
        exact ⟨utf8Bytes_inj hpath, utf8Bytes_inj hcontents⟩
      rw [hfile, ih hxs hys h]

/-! ## Digits of digests -/

/-- The digits of a digest are hexadecimal digits in lower case. -/
theorem Sha256.exists_of_mem_hexDigest {message : List UInt8} {c : Char}
    (h : c ∈ (Sha256.hexDigest message).toList) : ∃ n < 16, c = hexDigit n := by
  rw [Sha256.hexDigest, String.toList_ofList] at h
  obtain ⟨word, -, hword⟩ := List.mem_flatMap.1 h
  obtain ⟨i, -, rfl⟩ := List.mem_map.1 hword
  exact ⟨_, Nat.mod_lt _ (by decide), rfl⟩

private theorem Sha256.map_toLower_hexDigest (message : List UInt8) :
    (Sha256.hexDigest message).map Char.toLower = Sha256.hexDigest message := by
  have hlower : ∀ n : Fin 16, (hexDigit n).toLower = hexDigit n := by decide
  have hdigits : ∀ c ∈ (Sha256.hexDigest message).toList, c.toLower = c := fun c hc => by
    obtain ⟨n, hn, rfl⟩ := Sha256.exists_of_mem_hexDigest hc
    exact hlower ⟨n, hn⟩
  rw [← String.toList_inj, String.toList_map, List.map_congr_left hdigits, List.map_id']

namespace Codegen

/-! ## Results -/

/-- The bytes that a fingerprint is taken of are those of the files. -/
theorem utf8Bytes_sealedText (result : Codegen) :
    utf8Bytes result.sealedText = result.files.flatMap GeneratedFile.sealedBytes := by
  have hnul : utf8Bytes "\x00" = [0] := by decide
  rw [sealedText]
  induction result.files with
  | nil => rfl
  | cons file files ih =>
    rw [List.map_cons, String.join_cons, utf8Bytes_append, ih, List.flatMap_cons]
    simp [utf8Bytes_append, hnul, GeneratedFile.sealedBytes]

/-- No generated file holds a NUL byte, whatever its text literals stand for. -/
theorem isSealable_of_mem_files {result : Codegen} {file : GeneratedFile}
    (h : file ∈ result.files) : file.IsSealable := by
  obtain ⟨definition, -, rfl⟩ := List.mem_map.1 h
  have hname : ∀ name : Name, '\x00' ∉ name.text.toList := fun name hmem => by
    have hpart := Naming.isNamePart_of_isIdentifier name.isName.1 _ hmem
    revert hpart
    decide
  refine ⟨zero_not_mem_utf8Bytes fun hmem => ?_, zero_not_mem_utf8Bytes fun hmem => ?_⟩
  · simp only [Definition.toFile, Definition.path, String.toList_append, String.toList_join,
      List.mem_append, List.mem_flatMap, List.mem_map] at hmem
    rcases hmem with (⟨_, ⟨segment, -, rfl⟩, hmem⟩ | hmem) | hmem
    · rw [String.toList_append, List.mem_append] at hmem
      exact hmem.elim (hname segment) (by decide)
    · exact hname definition.name hmem
    · exact absurd hmem (by decide)
  · have hline := definition.file.eq_newline_of_isControl hmem (by decide)
    exact absurd hline (by decide)

/-! ## Verification -/

private theorem splitFingerprint?_eq_some_iff {expected algorithm digits : String} :
    splitFingerprint? expected = some (algorithm, digits) ↔
      expected = algorithm ++ ":" ++ digits ∧ ':' ∉ algorithm.toList := by
  -- Only the first colon divides, so the digits may have colons in them.
  have hsplit : ∀ before after : String, ':' ∉ before.toList →
      splitFingerprint? (before ++ ":" ++ after) = some (before, after) := by
    intro before after hbefore
    have hcs : (before ++ ":" ++ after).toList = before.toList ++ ':' :: after.toList := by simp
    obtain ⟨htake, hdrop⟩ :=
      takeWhile_append_of_not_mem hbefore (':' :: after.toList) (by simp)
    simp only [splitFingerprint?, hcs, htake, hdrop, String.ofList_toList]
  constructor
  · intro h
    by_cases hcolon : ':' ∈ expected.toList
    · obtain ⟨before, after, hcs, hbefore⟩ := List.eq_append_cons_of_mem hcolon
      obtain rfl : expected = String.ofList before ++ ":" ++ String.ofList after := by
        rw [← String.toList_inj]
        simpa using hcs
      rw [hsplit _ _ (by simpa using hbefore)] at h
      obtain ⟨rfl, rfl⟩ := Prod.mk.inj (Option.some.inj h)
      exact ⟨rfl, by simpa using hbefore⟩
    · obtain ⟨-, hdrop⟩ := takeWhile_append_of_not_mem hcolon [] (by simp)
      rw [List.append_nil] at hdrop
      simp only [splitFingerprint?, hdrop] at h
      cases h
  · rintro ⟨rfl, halgorithm⟩
    exact hsplit algorithm digits halgorithm

/-- A result is verified against its fingerprint, with digits of either case, and nothing else. -/
theorem verify_eq_ok_iff {result : Codegen} {expected : String} :
    result.verify expected = .ok () ↔
      ∃ digits, expected = "sha256:" ++ digits ∧
        digits.map Char.toLower = result.fingerprintDigits := by
  have hlower := Sha256.map_toLower_hexDigest result.sealedText.toUTF8.data.toList
  unfold verify
  constructor
  · intro h
    split at h
    · cases h
    case h_2 algorithm digits hsplit =>
      by_cases halgorithm : algorithm = "sha256"
      · subst halgorithm
        obtain ⟨rfl, -⟩ := splitFingerprint?_eq_some_iff.1 hsplit
        by_cases hdigits : result.fingerprintDigits.map Char.toLower = digits.map Char.toLower
        · exact ⟨digits, rfl, hdigits.symm.trans hlower⟩
        · simp [hdigits] at h
      · simp [halgorithm] at h
  · rintro ⟨digits, rfl, hdigits⟩
    have hsplit : splitFingerprint? ("sha256:" ++ digits) = some ("sha256", digits) :=
      splitFingerprint?_eq_some_iff.2 ⟨rfl, by decide⟩
    simp only [hsplit]
    exact if_pos (hlower.trans hdigits.symm)

/-! ## Fingerprints -/

/-- The bytes that a fingerprint is taken of say which files there are, with their paths, their
contents and their order: no file holds one of the NUL bytes that stand between them. The digits of
a fingerprint are 64 and in lower case, and a result is verified against these digits in either
case and against nothing else. -/
theorem fingerprint_separates (result : Codegen) :
    (∀ other : Codegen, utf8Bytes result.sealedText = utf8Bytes other.sealedText ↔
      result.files = other.files) ∧
    utf8Bytes result.sealedText = result.files.flatMap GeneratedFile.sealedBytes ∧
    (∀ file ∈ result.files, file.IsSealable) ∧
    result.fingerprint = "sha256:" ++ Sha256.hexDigest (utf8Bytes result.sealedText) ∧
    result.fingerprintDigits = Sha256.hexDigest (utf8Bytes result.sealedText) ∧
    result.fingerprintDigits.length = 64 ∧
    (∀ c ∈ result.fingerprintDigits.toList, ∃ n < 16, c = hexDigit n) ∧
    ∀ expected, result.verify expected = .ok () ↔
      ∃ digits, expected = "sha256:" ++ digits ∧
        digits.map Char.toLower = result.fingerprintDigits := by
  refine ⟨fun other => ⟨fun h => ?_, fun h => ?_⟩, utf8Bytes_sealedText result,
    fun file => isSealable_of_mem_files, rfl, rfl, Sha256.length_hexDigest _,
    fun c => Sha256.exists_of_mem_hexDigest, fun expected => verify_eq_ok_iff⟩
  · rw [utf8Bytes_sealedText, utf8Bytes_sealedText] at h
    exact files_eq_of_sealedBytes (fun _ => isSealable_of_mem_files)
      (fun _ => isSealable_of_mem_files) h
  · rw [utf8Bytes_sealedText, utf8Bytes_sealedText, h]

/-- A text literal that stands for a NUL does not hold one. -/
theorem fingerprint_separates_of_nul :
    ∃ definition : Definition,
      (definition.file.types.flatMap TypeDecl.constants).flatMap EnumConstant.args =
        [Expr.text "\x00"] ∧
      definition.toFile = ⟨"E.java", "enum E \x7b\n    A(\"\\u0000\")\n\x7d\n"⟩ ∧
      definition.toFile.IsSealable := by
  refine ⟨⟨⟨"E", by decide⟩, ⟨none, [], [⟨[], [], .enumType, ⟨"E", by decide⟩, [], [],
    [⟨⟨"A", by decide⟩, [.text "\x00"]⟩], []⟩]⟩⟩, by decide +kernel, by decide +kernel, ?_⟩
  obtain ⟨-, -, hsealable, -⟩ := fingerprint_separates ⟨[_], [], []⟩
  exact hsealable _ (List.mem_singleton.2 rfl)

end Codegen

end Stubwright
