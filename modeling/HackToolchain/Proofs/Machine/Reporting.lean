import HackToolchain.Machine.Report
import HackToolchain.Proofs.Asm.Reading
import HackToolchain.Proofs.Text.Lines
import HackToolchain.Proofs.Text.Numeral
import HackToolchain.Proofs.Text.Token

/-!
# Requests and reports

A report can be written for whatever has been requested.  A request is split at its first hyphen,
and a numeral without a minus sign is not negative: so no request names a cell by a negative
address, and a report finds every cell that it is to show.

* `names_of_readRequest`: the addresses that are read from a request are those that it names;
* `Names.nonneg`: they are not negative;
* `exists_reportLines`: each of them has its line in a report;
* `report_of_readRequests`: what has been requested is reported, address by address, unless an
  address has too many digits to be written.
-/

namespace HackToolchain.Machine

open Asm Text

/-! ### Requests -/

/-- A request names the cell at its address or, if there is a hyphen in it, the cells from the
address in front of the first hyphen up to the one behind it, in ascending order. -/
inductive Names : String → List Int → Prop
  /-- A single cell. -/
  | cell {request : String} {address : Int} (hrequest : '-' ∉ request.toList)
      (haddress : readAddress request = .ok address) : Names request [address]
  /-- A range, which is empty if it ends before it starts. -/
  | range {first last : String} {lo hi : Int} {addresses : List Int} (hfirst : '-' ∉ first.toList)
      (hlo : readAddress first = .ok lo) (hhi : readAddress last = .ok hi)
      (hascending : addresses.Pairwise (· < ·)) (hmem : ∀ x, x ∈ addresses ↔ lo ≤ x ∧ x ≤ hi) :
      Names (first ++ "-" ++ last) addresses

/-- An address is not negative unless there is a minus sign in it. -/
theorem readAddress_nonneg {token : String} {address : Int} (hminus : '-' ∉ token.toList)
    (h : readAddress token = .ok address) : 0 ≤ address := by
  unfold readAddress at h
  split at h
  · injection h with h
    rw [← h]
    exact Int.natCast_nonneg _
  · exact readNumeral_nonneg hminus h

/-- No request names a negative address. -/
theorem Names.nonneg {request : String} {addresses : List Int} (h : Names request addresses) :
    ∀ address ∈ addresses, 0 ≤ address := by
  cases h with
  | cell hrequest haddress =>
    intro address hmem
    rw [List.mem_singleton.1 hmem]
    exact readAddress_nonneg hrequest haddress
  | range hfirst hlo _ _ hrange =>
    intro address hmem
    exact Int.le_trans (readAddress_nonneg hfirst hlo) ((hrange address).1 hmem).1

theorem mem_addressRange {first last x : Int} :
    x ∈ addressRange first last ↔ first ≤ x ∧ x ≤ last := by
  simp only [addressRange, List.mem_map, List.mem_range]
  constructor
  · rintro ⟨i, hi, rfl⟩
    omega
  · intro h
    exact ⟨(x - first).toNat, by omega, by omega⟩

theorem pairwise_addressRange (first last : Int) :
    (addressRange first last).Pairwise (· < ·) := by
  rw [addressRange, List.pairwise_map]
  exact List.pairwise_lt_range.imp fun h => by omega

theorem readBound_eq_ok {cs : List Char} {address : Int} (h : readBound cs = .ok address) :
    readAddress (String.ofList cs) = .ok address := by
  unfold readBound at h
  cases hread : readAddress (String.ofList cs) with
  | error error =>
    rw [hread] at h
    cases h
  | ok read =>
    rw [hread] at h
    injection h with h
    rw [h]

/-- What is read from a request is what it names. -/
theorem names_of_readRequest {request : String} {addresses : List Int}
    (h : readRequest request = .ok addresses) : Names request addresses := by
  unfold readRequest at h
  simp only [bind, Except.bind] at h
  split at h
  · -- the first minus sign splits the request
    rename_i hminus
    obtain ⟨first, last, hsplit, hfirst⟩ :=
      List.eq_append_cons_of_mem (List.contains_iff_mem.1 hminus)
    rw [hsplit, before_append hfirst, after_append hfirst] at h
    split at h
    · cases h
    · rename_i _ lo hlo
      split at h
      · cases h
      · rename_i _ hi hhi
        split at h
        · cases h
        · injection h with h
          have hrequest : request = String.ofList first ++ "-" ++ String.ofList last := by
            apply String.toList_injective
            simp only [hsplit, String.toList_append, String.toList_ofList, List.append_assoc]
            rfl
          rw [← h, hrequest]
          exact .range (by rwa [String.toList_ofList]) (readBound_eq_ok hlo) (readBound_eq_ok hhi)
            (pairwise_addressRange lo hi) fun x => mem_addressRange
  · -- without a minus sign, the request is one bound
    rename_i hminus
    split at h
    · cases h
    · rename_i _ address haddress
      injection h with h
      have hread := readBound_eq_ok haddress
      rw [String.ofList_toList] at hread
      rw [← h]
      exact .cell (fun hmem => hminus (List.contains_iff_mem.2 hmem)) hread

/-- What is read from some requests is what they name, one after the other. -/
theorem readRequests_eq_ok {requests : List String} {addresses : List Int}
    (h : readRequests requests = .ok addresses) :
    ∃ named, List.Forall₂ Names requests named ∧ addresses = named.flatten := by
  unfold readRequests at h
  cases hread : requests.mapM readRequest with
  | error error =>
    rw [hread] at h
    cases h
  | ok named =>
    rw [hread] at h
    injection h with h
    exact ⟨named, (mapM_eq_ok_iff.1 hread).imp fun _ _ => names_of_readRequest, h.symm⟩

theorem Names.flatten_nonneg {requests : List String} {named : List (List Int)}
    (h : List.Forall₂ Names requests named) : ∀ address ∈ named.flatten, 0 ≤ address := by
  induction h with
  | nil => exact fun _ hmem => absurd hmem List.not_mem_nil
  | cons hnames _ ih =>
    intro address hmem
    rw [List.flatten_cons, List.mem_append] at hmem
    exact hmem.elim (hnames.nonneg address) (ih address)

/-! ### Reports -/

/-- One integer is the signed value of a word, or of another integer with its last sixteen bits. -/
def IsSigned (x value : Int) : Prop :=
  -0x8000 ≤ value ∧ value < 0x8000 ∧ value % 0x10000 = x % 0x10000

theorem isSigned_iff (x value : Int) : IsSigned x value ↔ value = Word.signed x := by
  obtain ⟨hlo, hhi⟩ := Word.signed_bounds x
  have hmod := Word.signed_emod x
  unfold IsSigned
  constructor
  · omega
  · rintro rfl
    exact ⟨hlo, hhi, hmod⟩

/-- The line shows the one signed value of the cell at an address, or of zero beyond the end. -/
def ShowsCell (cells : Array Int) (address : Int) (line : String) : Prop :=
  ∃ value, (∀ v, IsSigned (cells.getD address.toNat 0) v ↔ v = value) ∧
    line = "RAM[" ++ toString address ++ "]| " ++ toString value

theorem reportValue_of_nonneg (cells : Array Int) {address : Int} (h : 0 ≤ address) :
    reportValue cells address = .ok (cells.getD address.toNat 0) := by
  obtain ⟨i, rfl⟩ := Int.eq_ofNat_of_zero_le h
  unfold reportValue
  split
  · rename_i hbeyond
    rw [Int.toNat_natCast, Array.getD_eq_getD_getElem?, Array.getElem?_eq_none (by omega)]
    rfl
  · rename_i hinside
    rw [place?_natCast (by omega), Int.toNat_natCast]

/-- The line of an address that is not negative can be written, if the address can. -/
theorem exists_reportLine (cells : Array Int) {address : Int} (h : 0 ≤ address)
    (hdigits : (toString address).toList.length ≤ maxDigits) :
    ∃ line, reportLine cells address = .ok line ∧ ShowsCell cells address line := by
  refine ⟨_, ?_, _, isSigned_iff _, rfl⟩
  rw [reportLine, reportValue_of_nonneg cells h, writeNumeral_of_length_le h hdigits]
  rfl

/-- Each address has its line. -/
theorem exists_reportLines (cells : Array Int) {addresses : List Int}
    (h : ∀ address ∈ addresses, 0 ≤ address)
    (hdigits : ∀ address ∈ addresses, (toString address).toList.length ≤ maxDigits) :
    ∃ lines, addresses.mapM (reportLine cells) = .ok lines ∧
      List.Forall₂ (ShowsCell cells) addresses lines := by
  induction addresses with
  | nil => exact ⟨[], rfl, .nil⟩
  | cons address addresses ih =>
    obtain ⟨hfirst, hrest⟩ := List.forall_mem_cons.1 h
    obtain ⟨hdigit, hdigits⟩ := List.forall_mem_cons.1 hdigits
    obtain ⟨line, hline, hshows⟩ := exists_reportLine cells hfirst hdigit
    obtain ⟨lines, hlines, hall⟩ := ih hrest hdigits
    refine ⟨line :: lines, ?_, .cons hshows hall⟩
    rw [List.mapM_cons, hline, hlines]
    rfl

theorem endLines_eq_unlines (line : String) (lines : List String) :
    endLines (line :: lines) = unlines (line :: lines) := by
  apply String.toList_injective
  rw [toList_endLines, toList_unlines]

/-- What has been requested can be reported.  The addresses are not negative, and they are those
that the requests name, one request after the other.  If none of them has too many digits, the
report on any memory shows the stack pointer and then a line for each address. -/
theorem report_of_readRequests {requests : List String} {addresses : List Int}
    (h : readRequests requests = .ok addresses) :
    (∀ address ∈ addresses, 0 ≤ address) ∧
      (∃ named, List.Forall₂ Names requests named ∧ addresses = named.flatten) ∧
      ((∀ address ∈ addresses, (toString address).toList.length ≤ 4300) →
        ∀ cells : Array Int, 0 < cells.size →
          ∃ lines, List.Forall₂ (ShowsCell cells) addresses lines ∧
            report cells addresses =
              .ok (endLines (("SP| " ++ toString (cells.getD 0 0)) :: lines))) := by
  obtain ⟨named, hnamed, haddresses⟩ := readRequests_eq_ok h
  have hnonneg : ∀ address ∈ addresses, 0 ≤ address := by
    rw [haddresses]
    exact Names.flatten_nonneg hnamed
  refine ⟨hnonneg, ⟨named, hnamed, haddresses⟩, fun hdigits cells hsize => ?_⟩
  obtain ⟨lines, hlines, hshows⟩ := exists_reportLines cells hnonneg hdigits
  refine ⟨lines, hshows, ?_⟩
  have hpointer : cells[0]? = some (cells.getD 0 0) := by
    rw [Array.getD_eq_getD_getElem?, Array.getElem?_eq_getElem hsize, Option.getD_some]
  rw [report, hpointer, hlines, endLines_eq_unlines]
  rfl

/-- Requests of all kinds, the second of which names no cell. -/
def mixedRequests : List String :=
  ["2-4", "5--3", "SCREEN"]

theorem report_of_readRequests_mixedRequests :
    readRequests mixedRequests = .ok [2, 3, 4, 0x4000] ∧
      ∃ lines, List.Forall₂ (ShowsCell #[258, 7, 0xFFFF]) [2, 3, 4, 0x4000] lines ∧
        report #[258, 7, 0xFFFF] [2, 3, 4, 0x4000] = .ok (endLines ("SP| 258" :: lines)) := by
  have hread : readRequests mixedRequests = .ok [2, 3, 4, 0x4000] := by
    decide +kernel
  obtain ⟨-, -, hreport⟩ := report_of_readRequests hread
  exact ⟨hread, hreport (by decide +kernel) #[258, 7, 0xFFFF] (by decide)⟩

end HackToolchain.Machine
