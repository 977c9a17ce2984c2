import Mathlib.Data.List.Forall2
import Liaozhai.Net.Overlong

/-!
# Recovery after an over-long line

On a stream without commands every line has exactly one item. While the codec keeps
the beginning of a line, its buffer is that beginning. While it discards one, the item
of the line is already out, and the line goes on until its LF, wherever the reads are
cut and however many over-long lines follow one another.
-/

namespace Liaozhai.Codec

open Lines (Plain complete residue lastLine lines join)
open Utf8Lossy (fromUtf8Lossy)
set_option autoImplicit false

universe u

variable {Text : Type u} {text : List UInt8 → Text} {limit : Nat}
variable {c : TelnetLineCodec} {bs p r : List UInt8} {rs : List (List UInt8)}

/-- An item that a line may get: its text, or the notice that it is over-long. -/
inductive ItemFor (text : List UInt8 → Text) (limit : Nat) (l : List UInt8) :
    Except TelnetCodecError (CodecItem Text) → Prop where
  | line : ItemFor text limit l (.ok (.line (text l)))
  | tooLong : limit < l.length → ItemFor text limit l (.ok .lineTooLong)

/-- One item for each line, in order. -/
def OneEach (text : List UInt8 → Text) (limit : Nat) (ls : List (List UInt8))
    (items : List (Except TelnetCodecError (CodecItem Text))) : Prop :=
  List.Forall₂ (ItemFor text limit) ls items

theorem oneEach_lines (ls : List (List UInt8)) :
    OneEach text limit ls (ls.map fun l => .ok (.line (text l))) := by
  induction ls with
  | nil => exact .nil
  | cons l ls ih => exact .cons .line ih

theorem OneEach.append {ls ls' : List (List UInt8)}
    {items items' : List (Except TelnetCodecError (CodecItem Text))}
    (h : OneEach text limit ls items) (h' : OneEach text limit ls' items') :
    OneEach text limit (ls ++ ls') (items ++ items') :=
  List.rel_append h h'

/-- The buffer stays within its limit at every read. -/
def WithinBuffer (text : List UInt8 → Text) (c : TelnetLineCodec) (buf : List UInt8)
    (reads : List (List UInt8)) : Prop :=
  (decoder text).EachRead (fun buf => buf.length ≤ c.maxBufferSize) c buf reads

instance (text : List UInt8 → Text) (c : TelnetLineCodec) (buf : List UInt8)
    (reads : List (List UInt8)) : Decidable (WithinBuffer text c buf reads) :=
  inferInstanceAs (Decidable (Framed.Decoder.EachRead _ _ _ _ _))

/-- The lines of what is kept, and of what comes after it. -/
theorem lines_append (hcr : CR ∉ bs) (more : List UInt8) :
    lines (bs ++ more) = complete bs ++ lines (residue bs ++ more) := by
  rw [lines, lines, Lines.complete_append hcr, Lines.residue_append, List.append_assoc]

theorem afterRead_data (hc : AtRest c) (hiac : IAC ∉ bs) (hbuf : bs.length ≤ c.maxBufferSize) :
    (decoder text).afterRead c bs =
      if (residue bs).length ≤ c.maxLineLength then
        ⟨(complete bs).map fun l => .line (text l), none, c, residue bs⟩
      else
        ⟨((complete bs).map fun l => .line (text l)) ++ [.lineTooLong], none, c.discard, []⟩ := by
  have hbuf' : (bs ++ Telnet.State.data.tail).length ≤ c.maxBufferSize := by
    rw [Telnet.State.tail, List.append_nil]
    exact hbuf
  have hread := afterRead_clean (s := .data) text hc rfl trivial hiac hbuf'
  rw [Telnet.State.tail, List.append_nil, List.append_nil] at hread
  exact hread

theorem withinBuffer_cons {buf : List UInt8} (h : WithinBuffer text c buf (r :: rs)) :
    (buf ++ r).length ≤ c.maxBufferSize ∧
      (decoder text).EachRead (fun buf => buf.length ≤ c.maxBufferSize)
        ((decoder text).afterRead c (buf ++ r)).state ((decoder text).afterRead c (buf ++ r)).buf
        rs := h

/-- What a run still owes: the items of the lines from the one in progress on. If its
beginning is lost, its item has been delivered. -/
structure Accounts (text : List UInt8 → Text) (c : TelnetLineCodec) (reads : List (List UInt8)) :
    Prop where
  kept : ∀ p, Plain p → IAC ∉ p → p.length ≤ c.maxLineLength → p.length ≤ c.maxBufferSize →
    WithinBuffer text c p reads →
    OneEach text c.maxLineLength (lines (p ++ reads.flatten)) ((decoder text).deliverFrom c p reads)
  lost : ∀ p, Plain p → c.maxLineLength < p.length → WithinBuffer text c.discard [] reads →
    OneEach text c.maxLineLength (lines (p ++ reads.flatten))
      (.ok .lineTooLong :: (decoder text).deliverFrom c.discard [] reads)

theorem afterEof_kept (hc : AtRest c) (hp : Plain p) (hiac : IAC ∉ p)
    (hline : p.length ≤ c.maxLineLength) (hbuf : p.length ≤ c.maxBufferSize) :
    ((decoder text).afterEof c p).results = (lastLine p).map fun l => .ok (.line (text l)) := by
  have hplace : Place ⟨.data, p⟩ := ⟨trivial, rfl, hp, hiac⟩
  have hnil : p ++ Telnet.State.data.tail = p := List.append_nil p
  have hbetween : Between c ⟨.data, p⟩ c (p ++ Telnet.State.data.tail) := by
    apply hplace.between hc
    · rw [hnil]
      exact hbuf
    · rw [hnil]
      exact hline
  rw [hnil] at hbetween
  exact hbetween.afterEof_results hc.discarding

theorem accounts_nil (hc : AtRest c) : Accounts text c [] where
  kept := by
    intro p hp hiac hline hbuf _
    rw [(decoder text).deliverFrom_nil, afterEof_kept hc hp hiac hline hbuf, List.flatten_nil,
      List.append_nil, Lines.lines_plain hp]
    exact oneEach_lines _
  lost := by
    intro p hp hlong _
    have hne : p ≠ [] := List.ne_nil_of_length_pos (Nat.zero_lt_of_lt hlong)
    rw [(decoder text).deliverFrom_nil, afterEof_discard, List.flatten_nil, List.append_nil,
      Lines.lines_plain hp, lastLine, if_neg hne]
    exact .cons (.tooLong hlong) .nil

/-- A read while the beginning of a line is kept. -/
theorem Accounts.read (h : Accounts text c rs) (hc : AtRest c) (hp : Plain p) (hp' : IAC ∉ p)
    (hiac : IAC ∉ r) (hcr : CR ∉ r) (hbuf : WithinBuffer text c p (r :: rs)) :
    OneEach text c.maxLineLength (lines (p ++ (r :: rs).flatten))
      ((decoder text).deliverFrom c p (r :: rs)) := by
  obtain ⟨hlen, hlater⟩ := withinBuffer_cons hbuf
  have hiac' : IAC ∉ p ++ r := by
    rw [List.mem_append, not_or]
    exact ⟨hp', hiac⟩
  have hcr' : CR ∉ p ++ r := by
    rw [List.mem_append, not_or]
    exact ⟨hp.2, hcr⟩
  have hread := @afterRead_data _ text _ _ hc hiac' hlen
  have hres := Lines.residue_suffix (p ++ r)
  have herr : ((decoder text).afterRead c (p ++ r)).error = none := by
    rw [hread]
    split
    · rfl
    · rfl
  rw [(decoder text).deliverFrom_cons herr, List.flatten_cons, ← List.append_assoc,
    lines_append hcr']
  by_cases hline : (residue (p ++ r)).length ≤ c.maxLineLength
  · rw [if_pos hline] at hread
    rw [hread] at hlater ⊢
    rw [List.map_map]
    apply OneEach.append (oneEach_lines _)
    apply h.kept _ (Lines.plain_residue _) (fun hmem => hiac' (hres.subset hmem)) hline
      (Nat.le_trans hres.length_le hlen) hlater
  · rw [if_neg hline] at hread
    rw [hread] at hlater ⊢
    rw [List.map_append, List.map_map, List.append_assoc]
    apply OneEach.append (oneEach_lines _)
    exact h.lost _ (Lines.plain_residue _) (Nat.lt_of_not_le hline) hlater

theorem outsideSub_data (hiac : IAC ∉ r) : OutsideSub .data r := by
  induction r with
  | nil => trivial
  | cons b r ih =>
    rw [List.mem_cons, not_or] at hiac
    have hstep : (Telnet.step .data b).1 = .data := by
      rw [Telnet.step, if_neg (Ne.symm hiac.1)]
    have hout : (Telnet.step .data b).1.inSub = false := by
      rw [hstep]
      rfl
    refine ⟨hout, ?_⟩
    rw [hstep]
    exact ih hiac.2

theorem simple_data (hiac : IAC ∉ r) (hcr : CR ∉ r) : Simple .data r := by
  have hparse : Telnet.parse .data r = (.data, r) := Telnet.parse_data hiac
  refine ⟨outsideSub_data hiac, ?_, ?_⟩
  · rw [hparse]
    exact hiac
  · rw [hparse]
    exact hcr

/-- A read of data while a line is discarded: the line goes on, or it ends and the calls
go on behind it. -/
theorem afterRead_discard (text : List UInt8 → Text) (hc : AtRest c) (hiac : IAC ∉ r)
    (hcr : CR ∉ r) (hbuf : r.length ≤ c.maxBufferSize) :
    (Plain r ∧ (decoder text).afterRead c.discard r = ⟨[], none, c.discard, []⟩) ∨
      ∃ l rest, r = l ++ ([LF] ++ rest) ∧ Plain l ∧
        (decoder text).afterRead c.discard r = (decoder text).afterRead c rest := by
  have hparse : Telnet.parse .data r = (.data, r) := Telnet.parse_data hiac
  rcases @afterRead_lost _ c r [] .data text hc rfl (simple_data hiac hcr) (by rw [hparse]; rfl)
    hbuf nofun with ⟨hplain, hread⟩ | ⟨l, rest, hr, hl, -, hread⟩
  · rw [hparse] at hplain
    exact .inl ⟨hplain, hread⟩
  · rw [hparse] at hr hread
    rw [Telnet.State.tail, List.append_nil] at hread
    exact .inr ⟨l, rest, hr, hl, hread⟩

theorem Accounts.readLost (h : Accounts text c rs) (hc : AtRest c) (hp : Plain p)
    (hlong : c.maxLineLength < p.length) (hiac : IAC ∉ r) (hcr : CR ∉ r)
    (hbuf : WithinBuffer text c.discard [] (r :: rs)) :
    OneEach text c.maxLineLength (lines (p ++ (r :: rs).flatten))
      (.ok .lineTooLong :: (decoder text).deliverFrom c.discard [] (r :: rs)) := by
  obtain ⟨hlen, hlater⟩ := withinBuffer_cons hbuf
  rw [List.nil_append] at hlen hlater
  rcases afterRead_discard text hc hiac hcr hlen with ⟨hplain, hread⟩ | ⟨l, rest, hr, hl, hread⟩
  · -- nothing of the line comes out
    rw [hread] at hlater
    have hlonger : c.maxLineLength < (p ++ r).length := by
      rw [List.length_append]
      omega
    have hnext := h.lost (p ++ r) (Lines.plain_append.mpr ⟨hp, hplain⟩) hlonger hlater
    rw [(decoder text).deliverFrom_cons (by rw [List.nil_append, hread]), List.nil_append, hread,
      List.flatten_cons, ← List.append_assoc]
    exact hnext
  · -- the run goes on as if the rest of the read were a read
    have hsub : rest ⊆ r := by
      intro b hb
      rw [hr]
      exact List.mem_append_right _ (List.mem_append_right _ hb)
    have hrest : rest.length ≤ c.maxBufferSize := by
      have hshort : rest.length ≤ r.length := by
        rw [hr]
        simp only [List.length_append]
        omega
      exact Nat.le_trans hshort hlen
    have hbuf' : WithinBuffer text c [] (rest :: rs) := by
      refine ⟨hrest, ?_⟩
      rw [hread] at hlater
      exact hlater
    have hnext := h.read hc Lines.plain_nil List.not_mem_nil (fun hmem => hiac (hsub hmem))
      (fun hmem => hcr (hsub hmem)) hbuf'
    have hsame : (decoder text).deliverFrom c.discard [] (r :: rs) =
        (decoder text).deliverFrom c [] (rest :: rs) :=
      (decoder text).deliverFrom_cons_of_afterRead_eq hread
    have hlines : lines (p ++ (r :: rs).flatten) =
        (p ++ l) :: lines ([] ++ (rest :: rs).flatten) := by
      have hout : p ++ (r :: rs).flatten = (p ++ l) ++ ([LF] ++ (rest :: rs).flatten) := by
        rw [hr]
        simp only [List.flatten_cons, List.append_assoc]
      rw [hout]
      exact Lines.lines_terminator (Lines.plain_append.mpr ⟨hp, hl⟩) (.lf _)
    have hlonger : c.maxLineLength < (p ++ l).length := by
      rw [List.length_append]
      omega
    rw [hsame, hlines]
    exact .cons (.tooLong hlonger) hnext

theorem accounts (text : List UInt8 → Text) (hc : AtRest c) {reads : List (List UInt8)}
    (hiac : IAC ∉ reads.flatten) (hcr : CR ∉ reads.flatten) : Accounts text c reads := by
  induction reads with
  | nil => exact accounts_nil hc
  | cons r rs ih =>
    rw [List.flatten_cons, List.mem_append, not_or] at hiac hcr
    have hlater := ih hiac.2 hcr.2
    refine ⟨?_, ?_⟩
    · intro p hp hp' _ _ hbuf
      exact hlater.read hc hp hp' hiac.1 hcr.1 hbuf
    · intro p hp hlong hbuf
      exact hlater.readLost hc hp hlong hiac.1 hcr.1 hbuf

/-- Over-long lines cost nothing but themselves: whatever the limits and wherever the
reads are cut, the lines of the data and the items of the run correspond one to one. -/
theorem items_oneEach {ls : List (List UInt8)} {last : List UInt8} {reads : List (List UInt8)}
    {maxLineLength maxBufferSize : Nat} (hreads : reads.flatten = join ls last)
    (hlf : ∀ l ∈ ls ++ [last], LF ∉ l) (hcr : CR ∉ join ls last) (hiac : IAC ∉ join ls last)
    (hbuf : WithinBuffer fromUtf8Lossy (.withLimits maxLineLength maxBufferSize) [] reads) :
    OneEach fromUtf8Lossy maxLineLength (ls ++ lastLine last)
      ((decoder fromUtf8Lossy).deliver (.withLimits maxLineLength maxBufferSize) reads) := by
  have hrest := atRest_withLimits maxLineLength maxBufferSize
  have hall := accounts fromUtf8Lossy hrest (hreads ▸ hiac) (hreads ▸ hcr)
  have hkept := hall.kept [] Lines.plain_nil List.not_mem_nil (Nat.zero_le _) (Nat.zero_le _) hbuf
  obtain ⟨hls, hlast⟩ := Lines.plain_of_join hcr hlf
  rw [List.nil_append, hreads, Lines.lines_join hls hlast] at hkept
  exact hkept

/-- Two over-long lines and a short one, cut inside the first and inside the last. -/
theorem items_oneEach_hello :
    OneEach fromUtf8Lossy 3 [[104, 101, 108, 108, 111], [119, 111, 114, 108, 100], [104, 105]]
      ((decoder fromUtf8Lossy).deliver (.withLimits 3 8)
        [[104, 101, 108, 108], [111, LF, 119, 111, 114, 108], [100, LF, 104], [105]]) :=
  @items_oneEach [[104, 101, 108, 108, 111], [119, 111, 114, 108, 100]] [104, 105] _ 3 8
    rfl (by decide) (by decide) (by decide) (by decide +kernel)

end Liaozhai.Codec
