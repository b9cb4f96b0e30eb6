-- SUMMARY: The status of an HTTP response (`read_http_status`): the bounded read loop, the status line, and that packet boundaries do not matter.
import Procherd.Error
import Procherd.Format.Json
import Procherd.Format.Net
import Procherd.Format.Packets

/-!
# The status of an HTTP response

`read_http_status` reads until a line is complete, 1024 bytes are there, or the
stream ends. It then parses the first line of what it has. The result is that of
the first 1024 bytes of the stream, however they arrive.
-/

namespace Procherd

open Packets

def MAX_HTTP_STATUS_BYTES : Nat := 1024

def LINE_FEED : UInt8 := 10

/-! ## Reading -/

/-- The loop of `read_http_status`, from what has been read so far. -/
def readResponse (stream : Stream UInt8) (response : Bytes) : Option Bytes × Stream UInt8 :=
  if response.length < MAX_HTTP_STATUS_BYTES then
    let remaining := MAX_HTTP_STATUS_BYTES - response.length
    let readLimit := min remaining 128
    match stream.read readLimit with
    | (none, stream) => (none, stream)
    | (some bytes, stream) =>
      if bytes.length = 0 then (some response, stream)
      else
        let response' := response ++ bytes
        if response'.contains LINE_FEED then (some response', stream)
        else readResponse stream response'
  else (some response, stream)
termination_by MAX_HTTP_STATUS_BYTES - response.length
decreasing_by
  rw [List.length_append]
  omega

/-! ## Parsing -/

/-- `u8::is_ascii_whitespace`. -/
def isAsciiWhitespace (c : Char) : Bool :=
  c = '\t' || c = '\n' || c = '\x0c' || c = '\r' || c = ' '

/-- `str::split_ascii_whitespace`. -/
def splitAsciiWhitespace (text : List Char) : List (List Char) :=
  (text.splitOnP isAsciiWhitespace).filter (· ≠ [])

def parseStatusLine (line : Bytes) : Option Nat := do
  let line ← Json.fromUtf8 line
  let fields := splitAsciiWhitespace line
  let protocol ← fields[0]?
  if !"HTTP/1.".toList.isPrefixOf protocol then none
  else
    let code ← fields[1]?
    Net.parseU16 code

def readHttpStatus (stream : Stream UInt8) : Option Nat × Stream UInt8 :=
  match readResponse stream [] with
  | (none, stream) => (none, stream)
  | (some response, stream) =>
    ((response.splitOnP (· = LINE_FEED)).head?.bind parseStatusLine, stream)

/-! ## The first line -/

/-- The text before the first line feed, or all of it. -/
def firstLine (bytes : Bytes) : Bytes := bytes.takeWhile (· ≠ LINE_FEED)

theorem head?_splitOnP (bytes : Bytes) :
    (bytes.splitOnP (· = LINE_FEED)).head? = some (firstLine bytes) := by
  induction bytes with
  | nil => rfl
  | cons b bytes ih =>
    obtain ⟨line, lines, hlines⟩ := List.exists_cons_of_ne_nil
      (List.splitOnP_ne_nil (fun b : UInt8 => decide (b = LINE_FEED)) bytes)
    rw [hlines, List.head?_cons, Option.some.injEq] at ih
    by_cases hb : b = LINE_FEED
    · simp [List.splitOnP_cons_eq_if_modifyHead, hb, firstLine]
    · simp [List.splitOnP_cons_eq_if_modifyHead, hb, firstLine, hlines, ih]

/-- A text with a line feed has the first line of every text it is the start of. -/
theorem firstLine_append {bytes : Bytes} (h : LINE_FEED ∈ bytes) (rest : Bytes) :
    firstLine (bytes ++ rest) = firstLine bytes := by
  induction bytes with
  | nil => cases h
  | cons b bytes ih =>
    by_cases hb : b = LINE_FEED
    · simp [firstLine, hb]
    · have hmem : LINE_FEED ∈ bytes := List.mem_of_ne_of_mem (Ne.symm hb) h
      simpa [firstLine, hb] using ih hmem

/-! ## The loop -/

/-- What the loop makes of `whole`, the bytes of the stream from its start on:
    what it consumed, and whether that is all it needs or an error stopped it. -/
inductive Response (whole : Bytes) (fails : Bool) : Option Bytes × Stream UInt8 → Prop where
  | failed {stream : Stream UInt8} : stream.content = [] → fails →
      whole.length < MAX_HTTP_STATUS_BYTES → LINE_FEED ∉ whole → Response whole fails (none, stream)
  | ended {stream : Stream UInt8} : stream.content = [] → fails = false →
      whole.length ≤ MAX_HTTP_STATUS_BYTES → Response whole fails (some whole, stream)
  | line {stream : Stream UInt8} {response : Bytes} : whole = response ++ stream.content →
      response.length ≤ MAX_HTTP_STATUS_BYTES → LINE_FEED ∈ response →
      Response whole fails (some response, stream)
  | full {stream : Stream UInt8} {response : Bytes} : whole = response ++ stream.content →
      response.length = MAX_HTTP_STATUS_BYTES → Response whole fails (some response, stream)

theorem readResponse_response (stream : Stream UInt8) (response : Bytes)
    (hlength : response.length ≤ MAX_HTTP_STATUS_BYTES) (hline : LINE_FEED ∉ response) :
    Response (response ++ stream.content) stream.fails (readResponse stream response) := by
  induction hleft : MAX_HTTP_STATUS_BYTES - response.length using Nat.strong_induction_on
    generalizing stream response with
  | _ left ih =>
    unfold readResponse
    split
    case isFalse hfull => exact .full rfl (by omega)
    rename_i hroom
    have hlimit : 0 < min (MAX_HTTP_STATUS_BYTES - response.length) 128 := by omega
    have hread := stream.read_spec hlimit
    simp only
    generalize stream.read (min (MAX_HTTP_STATUS_BYTES - response.length) 128) = result at hread ⊢
    cases hread with
    | failed hend hfails =>
      rw [hend, List.append_nil]
      exact .failed hend hfails hroom hline
    | ended hend hfails =>
      simp only
      rw [if_pos List.length_nil, hend, List.append_nil]
      exact .ended hend hfails hlength
    | @data bytes stream' hne hfits hcontent hfails =>
      have hpos : 0 < bytes.length := List.length_pos_iff.mpr hne
      have hgrow : (response ++ bytes).length = response.length + bytes.length :=
        List.length_append
      simp only
      rw [if_neg hpos.ne', hcontent, ← List.append_assoc, ← hfails]
      split
      · rename_i hfound
        exact .line rfl (by omega) (List.contains_iff_mem.mp hfound)
      · rename_i hmissing
        refine ih _ ?_ stream' (response ++ bytes) (by omega) ?_ rfl
        · omega
        · exact fun hmem => hmissing (List.contains_iff_mem.mpr hmem)

/-! ## The status -/

/-- What the loop leaves is the status of the first bytes of the stream, unless an
    error came before they were there. -/
theorem http_status_of_stream (stream : Stream UInt8) :
    let first := stream.content.take MAX_HTTP_STATUS_BYTES
    let result := readHttpStatus stream
    (∃ consumed, stream.content = consumed ++ result.2.content ∧
      consumed.length ≤ MAX_HTTP_STATUS_BYTES) ∧
    result.1 =
      if stream.fails ∧ first.length < MAX_HTTP_STATUS_BYTES ∧ LINE_FEED ∉ first then none
      else parseStatusLine (firstLine first) := by
  intro first result
  have hresponse := readResponse_response stream [] (Nat.zero_le _) List.not_mem_nil
  rw [List.nil_append] at hresponse
  simp only [result, readHttpStatus]
  generalize readResponse stream [] = outcome at hresponse ⊢
  cases hresponse with
  | failed hend hfails hshort hline =>
    have hfirst : first = stream.content := List.take_of_length_le (by omega)
    refine ⟨⟨stream.content, by simp [hend], by omega⟩, ?_⟩
    rw [if_pos ⟨hfails, by rwa [hfirst], by rwa [hfirst]⟩]
  | ended hend hfails hlength =>
    have hfirst : first = stream.content := List.take_of_length_le hlength
    refine ⟨⟨stream.content, by simp [hend], hlength⟩, ?_⟩
    simp [hfails, head?_splitOnP, hfirst]
  | @line stream' response hcontent hlength hline =>
    have hpre : response <+: first :=
      List.prefix_take_iff.mpr ⟨⟨stream'.content, hcontent.symm⟩, hlength⟩
    obtain ⟨rest, hrest⟩ := hpre
    have hmem : LINE_FEED ∈ first := hrest ▸ List.mem_append_left rest hline
    have hsame : firstLine first = firstLine response := by
      rw [← hrest, firstLine_append hline]
    refine ⟨⟨response, hcontent, hlength⟩, ?_⟩
    simp [head?_splitOnP, hmem, hsame]
  | @full stream' response hcontent hlength =>
    have hfirst : first = response := by
      rw [show first = stream.content.take MAX_HTTP_STATUS_BYTES from rfl, hcontent, ← hlength,
        List.take_left]
    refine ⟨⟨response, hcontent, hlength.le⟩, ?_⟩
    simp [head?_splitOnP, hfirst, hlength]

end Procherd
