import Mathlib
import KmVirtualCamera.Core.Utf8
import KmVirtualCamera.L1Encoding.SessionCodec

/-!
# Request headers

The Windows transport hands its headers over as one wide string, a line each.
A name that may not hold a colon and a value that may not hold a control
character cannot end the line, or begin one: what is read back off the string is
what was put in (`headers_read`), whatever bytes the caller had.

A wide string is the list of its characters.
-/
namespace KmVirtualCamera.L1.HttpHeaders
open L1.H264 (Bytes)
open L1.SessionCodec (safeHeader)
open Utf8

/-- `MultiByteToWideChar` with `MB_ERR_INVALID_CHARS`.
mirrors windows/receiver/signaling/win_http_client.cpp:11-17 -/
def wide (value : Bytes) : Option (List Char) := value.toByteArray.utf8Decode?.map Array.toList

/-- mirrors windows/receiver/signaling/win_http_client.cpp:72,
macos/receiver/url_session_transport.mm:22-26,98-99 -/
def validHeader (h : Bytes × Bytes) : Bool :=
  !(h.1.isEmpty || h.1.any (fun c => c == 58 || c == 32 || c == 9) || !safeHeader h.1 || !safeHeader h.2)

/-- mirrors windows/receiver/signaling/win_http_client.cpp:70-75 -/
def headerBlock : List (Bytes × Bytes) → Except String (List Char)
  | [] => .ok []
  | h :: rest =>
    if validHeader h then
      match wide h.1, wide h.2 with
      | some name, some value =>
        (headerBlock rest).map fun headers => name ++ ':' :: ' ' :: (value ++ '\r' :: '\n' :: headers)
      | _, _ => .error "invalid UTF-8 URL/header"
    else .error "invalid HTTP header"

/-! ## Reading them -/

/-- The lines of a text; `acc` is what there is of the first, from its end. -/
def splitLines : List Char → List Char → List (List Char)
  | acc, '\r' :: '\n' :: rest => acc.reverse :: splitLines [] rest
  | acc, c :: rest => splitLines (c :: acc) rest
  | acc, [] => if acc = [] then [] else [acc.reverse]

/-- The name ends at the first colon. -/
def readHeader (line : List Char) : List Char × List Char :=
  (line.takeWhile (· != ':'), (line.dropWhile (· != ':')).drop 2)

def readHeaders (block : List Char) : List (List Char × List Char) := (splitLines [] block).map readHeader

theorem wide_iff {value : Bytes} {cs : List Char} : wide value = some cs ↔ value = utf8 cs := by
  have hencode : cs.utf8Encode = (utf8 cs).toByteArray := rfl
  unfold wide
  constructor
  · intro h
    obtain ⟨a, ha, rfl⟩ := Option.map_eq_some_iff.mp h
    have hb := ByteArray.utf8Encode_get_utf8Decode? (b := value.toByteArray) (h := by simp [ha])
    simp only [ha, Option.get_some] at hb
    have hlist := congrArg (fun b => b.data.toList) hb.symm
    simpa [List.utf8Encode, utf8] using hlist
  · rintro rfl
    rw [← hencode, List.utf8Decode?_utf8Encode]
    rfl

/-- A line without a line break is read to its end. -/
theorem splitLines_line : ∀ {line acc rest : List Char}, '\r' ∉ line →
    splitLines acc (line ++ '\r' :: '\n' :: rest) = (acc.reverse ++ line) :: splitLines [] rest
  | [], acc, rest, _ => by simp [splitLines]
  | c :: line, acc, rest, h => by
    have hc : c ≠ '\r' := fun he => h (he ▸ List.mem_cons_self)
    have hline : splitLines (c :: acc) (line ++ '\r' :: '\n' :: rest) =
        ((c :: acc).reverse ++ line) :: splitLines [] rest :=
      splitLines_line fun hm => h (List.mem_cons_of_mem c hm)
    rw [List.cons_append, splitLines, hline]
    · simp
    · rintro rest' hr hcons
      exact hc hr

theorem readHeader_line {name value : List Char} (h : ':' ∉ name) :
    readHeader (name ++ ':' :: ' ' :: value) = (name, value) := by
  have hall : ∀ c ∈ name, (c != ':') = true := by
    intro c hc
    simp only [bne_iff_ne, ne_eq]
    rintro rfl
    exact h hc
  unfold readHeader
  rw [List.takeWhile_append_of_pos hall, List.dropWhile_append_of_pos hall]
  simp

/-! ## Nothing is smuggled in -/

/-- An ASCII character is a byte of the text. -/
theorem mem_utf8 {c : Char} {cs : List Char} (hc : c ∈ cs) (h : c.toNat < 0x80) :
    UInt8.ofNat c.toNat ∈ utf8 cs := by
  refine List.mem_flatMap.mpr ⟨c, hc, ?_⟩
  rw [encode_one h]
  exact List.mem_singleton_self _

theorem safe_line {cs : List Char} (h : safeHeader (utf8 cs) = true) : '\r' ∉ cs := by
  intro hc
  have hb : (13 : UInt8) ∈ utf8 cs := mem_utf8 hc (by decide)
  have := List.all_eq_true.mp h _ hb
  simp at this

/-- What a header that is let through looks like. -/
theorem validHeader_chars {name value : List Char} (h : validHeader (utf8 name, utf8 value) = true) :
    ':' ∉ name ∧ '\r' ∉ name ∧ '\r' ∉ value := by
  simp only [validHeader, Bool.not_eq_true', Bool.or_eq_false_iff] at h
  obtain ⟨⟨⟨-, hsep⟩, hname⟩, hvalue⟩ := h
  refine ⟨?_, safe_line (by simpa using hname), safe_line (by simpa using hvalue)⟩
  intro hc
  have hb : (58 : UInt8) ∈ utf8 name := mem_utf8 hc (by decide)
  have hno := List.any_eq_false.mp hsep _ hb
  simp at hno

/-- The block as the sum of its lines. -/
theorem headerBlock_ok {h : Bytes × Bytes} {rest : List (Bytes × Bytes)} {block : List Char}
    (hb : headerBlock (h :: rest) = .ok block) : validHeader h = true ∧ ∃ name value headers,
      h = (utf8 name, utf8 value) ∧ headerBlock rest = .ok headers ∧
        block = name ++ ':' :: ' ' :: (value ++ '\r' :: '\n' :: headers) := by
  rw [headerBlock] at hb
  split at hb
  · rename_i hvalid
    split at hb
    · rename_i name value hname hvalue
      cases hrest : headerBlock rest with
      | error what =>
        rw [hrest] at hb
        cases hb
      | ok headers =>
        rw [hrest] at hb
        cases hb
        refine ⟨hvalid, name, value, headers, ?_, rfl, rfl⟩
        rw [← wide_iff.mp hname, ← wide_iff.mp hvalue]
    · cases hb
  · cases hb

theorem readHeaders_block : ∀ {hs : List (Bytes × Bytes)} {block : List Char}, headerBlock hs = .ok block →
    (readHeaders block).map (fun h => (utf8 h.1, utf8 h.2)) = hs
  | [], block, hb => by
    cases hb
    rfl
  | h :: rest, block, hb => by
    obtain ⟨hvalid, name, value, headers, rfl, hrest, rfl⟩ := headerBlock_ok hb
    obtain ⟨hcolon, hname, hvalue⟩ := validHeader_chars hvalid
    have hline : '\r' ∉ name ++ ':' :: ' ' :: value := by simp [hname, hvalue]
    have hsplit : name ++ ':' :: ' ' :: (value ++ '\r' :: '\n' :: headers) =
        (name ++ ':' :: ' ' :: value) ++ '\r' :: '\n' :: headers := by simp
    have ih := readHeaders_block hrest
    unfold readHeaders at ih ⊢
    rw [hsplit, splitLines_line hline]
    simp only [List.reverse_nil, List.nil_append, List.map_cons]
    rw [readHeader_line hcolon, ih]

theorem headerBlock_total {hs : List (Bytes × Bytes)}
    (h : ∀ p ∈ hs, validHeader p = true ∧ ∃ name value, p = (utf8 name, utf8 value)) :
    ∃ block, headerBlock hs = .ok block := by
  induction hs with
  | nil => exact ⟨[], rfl⟩
  | cons p rest ih =>
    obtain ⟨hvalid, name, value, rfl⟩ := h p List.mem_cons_self
    obtain ⟨headers, hrest⟩ := ih fun q hq => h q (List.mem_cons_of_mem _ hq)
    rw [headerBlock, if_pos hvalid, wide_iff.mpr rfl, wide_iff.mpr rfl, hrest]
    exact ⟨_, rfl⟩

theorem headerBlock_error {what : String} :
    ∀ {hs : List (Bytes × Bytes)}, headerBlock hs = .error what → what ≠ ""
  | [], h => by cases h
  | h :: rest, hb => by
    rw [headerBlock] at hb
    split at hb
    · split at hb
      · cases hrest : headerBlock rest with
        | error what' =>
          rw [hrest] at hb
          cases hb
          exact headerBlock_error hrest
        | ok headers =>
          rw [hrest] at hb
          cases hb
      · cases hb
        decide
    · cases hb
      decide

theorem headerBlock_valid {hs : List (Bytes × Bytes)} : ∀ {block : List Char}, headerBlock hs = .ok block →
    ∀ p ∈ hs, validHeader p = true ∧ ∃ name value, p = (utf8 name, utf8 value) := by
  induction hs with
  | nil => simp
  | cons h rest ih =>
    intro block hb p hp
    obtain ⟨hvalid, name, value, headers, rfl, hrest, -⟩ := headerBlock_ok hb
    rcases List.mem_cons.mp hp with rfl | hp
    · exact ⟨hvalid, name, value, rfl⟩
    · exact ih hrest p hp

/-- There is a block for just the headers that are valid UTF-8 and let through,
and read line by line it has these headers and no others. -/
theorem headers_read (hs : List (Bytes × Bytes)) :
    ((∃ block, headerBlock hs = .ok block) ↔
      ∀ p ∈ hs, validHeader p = true ∧ ∃ name value, p = (utf8 name, utf8 value)) ∧
    ∀ block, headerBlock hs = .ok block → (readHeaders block).map (fun h => (utf8 h.1, utf8 h.2)) = hs :=
  ⟨⟨fun ⟨_, hb⟩ => headerBlock_valid hb, headerBlock_total⟩, fun _ hb => readHeaders_block hb⟩

end KmVirtualCamera.L1.HttpHeaders
