import QjsLws.Misc.Text
import Mathlib.Tactic.IntervalCases

/-!
# The chunked transfer coding

The chunked body of HTTP/1.1 without extensions and trailers: the encoding of one chunk, a
decoder that accepts exactly one complete body, and their round trip.
-/

namespace QjsLws.Misc

/-- CR LF. -/
def crlf : Text := ['\r', '\n']

/-- The size line of a chunk. -/
def sizeLine (len : Nat) : Text := hex len ++ crlf

/-- One chunk: its size line, its data, and CR LF. -/
def encodeChunk (data : List UInt8) : List UInt8 :=
  utf8 (sizeLine data.length) ++ data ++ utf8 crlf

/-- The chunk of size zero that ends a body. -/
def lastChunk : Text := '0' :: crlf ++ crlf

/-- The value of a hexadecimal digit. -/
def hexValue (b : UInt8) : Option Nat :=
  if 48 ≤ b ∧ b ≤ 57 then some (b.toNat - 48)
  else if 97 ≤ b ∧ b ≤ 102 then some (b.toNat - 87)
  else if 65 ≤ b ∧ b ≤ 70 then some (b.toNat - 55)
  else none

/-- Reads a size line; the first argument is the value of the digits read so far. -/
def readSize : Option Nat → List UInt8 → Option (Nat × List UInt8)
  | _, [] => none
  | acc, b :: rest =>
    match hexValue b, acc with
    | some d, _ => readSize (some (acc.getD 0 * 16 + d)) rest
    | none, some n => if b = 13 ∧ rest.head? = some 10 then some (n, rest.tail) else none
    | none, none => none

/-- Reads at most `fuel` chunks. -/
def readChunks : Nat → List UInt8 → Option (List UInt8)
  | 0, _ => none
  | fuel + 1, bytes =>
    match readSize none bytes with
    | none => none
    | some (0, rest) => if rest = utf8 crlf then some [] else none
    | some (n + 1, rest) =>
      if (rest.drop (n + 1)).take 2 = utf8 crlf then
        (readChunks fuel (rest.drop (n + 3))).map (rest.take (n + 1) ++ ·)
      else none

/-- The content of a complete chunked body. -/
def decodeChunked (bytes : List UInt8) : Option (List UInt8) := readChunks (bytes.length + 1) bytes

theorem readSize_digit {d : Nat} (acc : Option Nat) (rest : List UInt8) (lt : d < 16) :
    readSize acc (utf8 [d.digitChar] ++ rest) = readSize (some (acc.getD 0 * 16 + d)) rest := by
  have value : ∃ b, utf8 [d.digitChar] = [b] ∧ hexValue b = some d := by
    interval_cases d <;> exact ⟨_, rfl, rfl⟩
  obtain ⟨b, bytes, value⟩ := value
  simp only [bytes, List.singleton_append, readSize, value]

theorem readSize_hex (n : Nat) (rest : List UInt8) :
    readSize none (utf8 (hex n) ++ rest) = readSize (some n) rest := by
  induction n using Nat.strongRecOn generalizing rest with
  | ind n ih =>
    rcases Nat.lt_or_ge n 16 with small | large
    · rw [hex, Nat.toDigits_of_lt_base small, readSize_digit none rest small]
      simp
    · have shorter : n / 16 < n := Nat.div_lt_self (by omega) (by decide)
      rw [hex, Nat.toDigits_of_base_le (by decide) large, utf8_append, List.append_assoc]
      rw [← hex, ih _ shorter, readSize_digit _ _ (Nat.mod_lt n (by decide))]
      congr 2
      simp only [Option.getD_some]
      omega

theorem readSize_sizeLine (n : Nat) (rest : List UInt8) :
    readSize none (utf8 (sizeLine n) ++ rest) = some (n, rest) := by
  rw [sizeLine, utf8_append, List.append_assoc, readSize_hex]
  rfl

theorem readChunks_cons {data rest : List UInt8} (fuel : Nat) (nonempty : data ≠ []) :
    readChunks (fuel + 1) (encodeChunk data ++ rest) = (readChunks fuel rest).map (data ++ ·) := by
  obtain ⟨n, len⟩ : ∃ n, data.length = n + 1 :=
    Nat.exists_eq_add_one.mpr (List.length_pos_iff.mpr nonempty)
  have size : readSize none (encodeChunk data ++ rest) =
      some (n + 1, data ++ (utf8 crlf ++ rest)) := by
    rw [encodeChunk, List.append_assoc, List.append_assoc, readSize_sizeLine, len]
  have line : (utf8 crlf).length = 2 := rfl
  have content : (data ++ (utf8 crlf ++ rest)).take (n + 1) = data := by
    rw [← len, List.take_left]
  have tail : (data ++ (utf8 crlf ++ rest)).drop (n + 1) = utf8 crlf ++ rest := by
    rw [← len, List.drop_left]
  have next : (data ++ (utf8 crlf ++ rest)).drop (n + 3) = rest := by
    rw [show n + 3 = n + 1 + 2 from rfl, ← List.drop_drop, tail, ← line, List.drop_left]
  simp only [readChunks, size, content, tail, next]
  rw [if_pos (by rw [← line, List.take_left])]

theorem readChunks_last (fuel : Nat) : readChunks (fuel + 1) (utf8 lastChunk) = some [] := rfl

theorem readChunks_encode {chunks : List (List UInt8)} (nonempty : ∀ data ∈ chunks, data ≠ []) :
    ∀ fuel, chunks.length < fuel →
      readChunks fuel (chunks.flatMap encodeChunk ++ utf8 lastChunk) = some chunks.flatten := by
  induction chunks with
  | nil =>
    intro fuel enough
    obtain ⟨k, rfl⟩ := Nat.exists_eq_add_one.mpr enough
    exact readChunks_last k
  | cons data rest ih =>
    intro fuel enough
    rw [List.length_cons] at enough
    obtain ⟨k, rfl⟩ := Nat.exists_eq_add_one.mpr (Nat.zero_lt_of_lt enough)
    rw [List.flatMap_cons, List.append_assoc, readChunks_cons k (nonempty data List.mem_cons_self),
      ih (fun d member => nonempty d (List.mem_cons_of_mem _ member)) k (by omega)]
    rfl

theorem length_le_encode (chunks : List (List UInt8)) :
    chunks.length ≤ (chunks.flatMap encodeChunk).length := by
  induction chunks with
  | nil => simp
  | cons data rest ih =>
    have line : (utf8 crlf).length = 2 := rfl
    simp only [List.flatMap_cons, List.length_append, List.length_cons, encodeChunk, line]
    omega

/-- The round trip: a body of nonempty chunks decodes to their concatenation. -/
theorem decodeChunked_encode {chunks : List (List UInt8)} (nonempty : ∀ data ∈ chunks, data ≠ []) :
    decodeChunked (chunks.flatMap encodeChunk ++ utf8 lastChunk) = some chunks.flatten := by
  apply readChunks_encode nonempty
  have le := length_le_encode chunks
  rw [List.length_append]
  omega

theorem readSize_rest {acc : Option Nat} {bytes rest : List UInt8} {n : Nat}
    (read : readSize acc bytes = some (n, rest)) : rest.length < bytes.length := by
  induction bytes generalizing acc with
  | nil => simp [readSize] at read
  | cons b tail ih =>
    unfold readSize at read
    split at read
    · have shorter := ih read
      simp only [List.length_cons]
      omega
    · split at read
      · simp only [Option.some.injEq, Prod.mk.injEq] at read
        rw [← read.2, List.length_tail, List.length_cons]
        omega
      · cases read
    · cases read

theorem readChunks_shorter {fuel : Nat} {bytes content : List UInt8}
    (read : readChunks fuel bytes = some content) : content.length < bytes.length := by
  induction fuel generalizing bytes content with
  | zero => simp [readChunks] at read
  | succ fuel ih =>
    rw [readChunks] at read
    split at read
    · cases read
    · rename_i rest size
      have shorter := readSize_rest size
      split at read
      · simp only [Option.some.injEq] at read
        subst read
        exact Nat.zero_lt_of_lt shorter
      · cases read
    · rename_i n rest size
      have shorter := readSize_rest size
      split at read
      · obtain ⟨more, next, rfl⟩ := Option.map_eq_some_iff.mp read
        have bound := ih next
        simp only [List.length_drop, List.length_append, List.length_take] at bound ⊢
        omega
      · cases read

/-- Decoding always removes something: no body stands for itself. -/
theorem decodeChunked_ne_self (bytes : List UInt8) : decodeChunked bytes ≠ some bytes :=
  fun read => Nat.lt_irrefl _ (readChunks_shorter read)

end QjsLws.Misc
