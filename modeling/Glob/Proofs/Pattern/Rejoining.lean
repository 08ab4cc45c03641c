import Glob.Proofs.Pattern.Cutting
import Glob.Proofs.Text.Pieces
/-!
# Joining the pieces of a pattern

A pattern is its pieces with separators between, each of which is one segment wherever it stands (`Piece`), and any such
pieces joined are a pattern: `parse_pieces` and `parse_join`.  The segments of the pattern are those of the pieces,
apart from each `**` that comes right behind another one (`collapse`).
-/
namespace Glob

namespace Parser

open Builder (idle)

/-- A text that is read as one segment with the nodes. -/
structure Piece where
  text : Text
  nodes : List Node
  reads : Reads Scanner.start (start []) text nodes

theorem Reads.moved {s s' : Scanner.State} {b b' : Builder} {w : Text} {nodes : List Node} (h : Reads s b w nodes)
    (hs : s.bare = s'.bare) (hb : b.bare = b'.bare) : Reads s' b' w nodes :=
  fun _ _ k₀ hs' hb' => h _ _ k₀ (hs'.trans hs.symm) (hb'.trans hb.symm)

/-- The segments are those of the pieces, the first of which begins at offset `k`. -/
inductive Placed : Nat → List Piece → List Segment → Prop
  | nil (k : Nat) : Placed k [] []
  | cons {k : Nat} {piece : Piece} {pieces : List Piece} {s : Segment} {ss : List Segment}
    (nodes : nodesBare s.nodes = nodesBare piece.nodes) (span : s.span = ⟨k, (k + piece.text.length : Nat)⟩)
    (rest : Placed (k + piece.text.length + 1) pieces ss) : Placed k (piece :: pieces) (s :: ss)

/-- The segments without each recursive one that comes behind another, or at the beginning if one comes before. -/
def collapse (behindRecursive : Bool) : List Segment → List Segment
  | [] => []
  | s :: ss => if behindRecursive && s.isRecursive then collapse true ss else s :: collapse s.isRecursive ss

theorem foldl_addSegment (last : Segment) (segments ss : List Segment) :
    (ss.foldl addSegment (last :: segments)).reverse = (last :: segments).reverse ++ collapse last.isRecursive ss := by
  induction ss generalizing last segments with
  | nil => simp [collapse]
  | cons s ss ih =>
    rw [List.foldl_cons, collapse]
    by_cases hboth : (s.isRecursive && last.isRecursive) = true
    · have hadd : addSegment (last :: segments) s = last :: segments := if_pos hboth
      rw [hadd, ih, if_pos (by rw [Bool.and_comm]; exact hboth), (Bool.and_eq_true_iff.1 hboth).2]
    · have hadd : addSegment (last :: segments) s = s :: last :: segments := if_neg hboth
      rw [hadd, ih, if_neg (by rw [Bool.and_comm]; exact hboth)]
      simp

theorem foldl_addSegment_nil (ss : List Segment) : (ss.foldl addSegment []).reverse = collapse false ss := by
  cases ss with
  | nil => rfl
  | cons s ss => exact foldl_addSegment s [] ss

/-! ## There and back -/

variable {k : Nat} {source p t : Text} {segments : List Segment} {pieces : List Piece}

def joined (pieces : List Piece) : Text := Text.join [Mark.slash] (pieces.map Piece.text)

theorem joined_singleton (piece : Piece) : joined [piece] = piece.text := Text.join_singleton piece.text

theorem joined_cons (piece : Piece) (h : pieces ≠ []) :
    joined (piece :: pieces) = piece.text ++ Mark.slash :: joined pieces := by
  have hne : pieces.map Piece.text ≠ [] := mt List.map_eq_nil_iff.1 h
  rw [joined, List.map_cons, Text.join_cons_of_ne_nil _ hne, joined]

theorem idle_begins (source : Text) (segments : List Segment) (k : Nat) : (idle source segments).Begins k (some k) :=
  .inr ⟨rfl, rfl, rfl⟩

theorem exists_pieces {built : List Segment} (h : resumeAt k (idle source segments) t = .ok (.ok built)) :
    ∃ pieces, pieces ≠ [] ∧ t = joined pieces := by
  induction hn : t.length using Nat.strongRecOn generalizing k segments t with
  | _ n ih =>
  subst hn
  obtain ⟨w, nodes, hreads, ht⟩ := exists_reads (by rfl) h
  let piece : Piece := ⟨w, nodes, hreads.moved (by rfl) (by rfl)⟩
  rcases ht with rfl | ⟨t', rfl⟩
  · exact ⟨[piece], List.cons_ne_nil _ _, (joined_singleton piece).symm⟩
  · obtain ⟨nodes', -, -, hmore⟩ := hreads _ _ k rfl rfl (idle_begins source segments k)
    have hrest := (hmore t').symm.trans h
    have hshorter : t'.length < (w ++ Mark.slash :: t').length := by
      rw [List.length_append, List.length_cons]
      omega
    obtain ⟨pieces, hne, rfl⟩ := ih _ hshorter hrest rfl
    exact ⟨piece :: pieces, List.cons_ne_nil _ _, (joined_cons piece hne).symm⟩

theorem resume_joined (hne : pieces ≠ []) :
    ∃ placed, Placed k pieces placed ∧
      resumeAt k (idle source segments) (joined pieces) = .ok (.ok (placed.foldl addSegment segments).reverse) := by
  induction pieces generalizing k segments with
  | nil => exact absurd rfl hne
  | cons piece pieces ih =>
    obtain ⟨nodes, hnodes, hend, hmore⟩ :=
      piece.reads ⟨k, 0, .text⟩ (idle source segments) k rfl rfl (idle_begins _ _ _)
    let s : Segment := ⟨nodes, ⟨k, (k + piece.text.length : Nat)⟩⟩
    by_cases hlast : pieces = []
    · subst hlast
      refine ⟨[s], .cons hnodes rfl (.nil _), ?_⟩
      rw [joined_singleton]
      exact hend
    · obtain ⟨placed, hplaced, hresume⟩ :=
        @ih (k + piece.text.length + 1) (addSegment segments s) hlast
      refine ⟨s :: placed, .cons hnodes rfl hplaced, ?_⟩
      rw [joined_cons piece hlast]
      exact (hmore _).trans hresume

/-! ## Without recursive segments at the end -/

theorem Placed.length_eq {placed : List Segment} (h : Placed k pieces placed) : pieces.length = placed.length := by
  induction h with
  | nil => rfl
  | cons _ _ _ ih => rw [List.length_cons, List.length_cons, ih]

/-- The last segment ends where the pieces do. -/
theorem Placed.stop {placed : List Segment} {last : Segment} (h : Placed k pieces placed)
    (hlast : placed.getLast? = some last) : last.span.stop = (k + (joined pieces).length : Nat) := by
  induction h with
  | nil => cases hlast
  | @cons k piece pieces s ss hnodes hspan hrest ih =>
    by_cases hnil : pieces = []
    · subst hnil
      cases hrest
      obtain rfl : s = last := by simpa using hlast
      rw [hspan, joined_singleton]
    · have hne : ss ≠ [] := by
        rintro rfl
        cases hrest
        exact hnil rfl
      rw [List.getLast?_cons_of_ne_nil hne] at hlast
      rw [ih hlast, joined_cons piece hnil, List.length_append, List.length_cons]
      congr 1
      omega

/-- The last segment is recursive, or what comes before the first one if there is none. -/
def endsRecursive (behindRecursive : Bool) (ss : List Segment) : Bool :=
  (ss.getLast?.map Segment.isRecursive).getD behindRecursive

theorem endsRecursive_cons (r : Bool) (s : Segment) (ss : List Segment) :
    endsRecursive r (s :: ss) = endsRecursive s.isRecursive ss := by
  rw [endsRecursive, endsRecursive, List.getLast?_cons]
  cases ss.getLast? <;> rfl

theorem collapse_concat (r : Bool) (ss : List Segment) (s : Segment) :
    collapse r (ss ++ [s]) =
      if endsRecursive r ss && s.isRecursive then collapse r ss else collapse r ss ++ [s] := by
  induction ss generalizing r with
  | nil => simp [collapse, endsRecursive]
  | cons a ss ih =>
    rw [List.cons_append, collapse, collapse, endsRecursive_cons]
    by_cases hdropped : (r && a.isRecursive) = true
    · have ha : a.isRecursive = true := (Bool.and_eq_true_iff.1 hdropped).2
      rw [if_pos hdropped, if_pos hdropped, ih, ha]
    · rw [if_neg hdropped, if_neg hdropped, ih]
      split <;> rfl

theorem Placed.concat {placed : List Segment} {piece : Piece} (h : Placed k (pieces ++ [piece]) placed) :
    ∃ init s, placed = init ++ [s] ∧ Placed k pieces init := by
  induction pieces generalizing k placed with
  | nil =>
    cases h with
    | cons _ _ hrest =>
      cases hrest
      exact ⟨[], _, rfl, .nil k⟩
  | cons q pieces ih =>
    cases h with
    | cons hnodes hspan hrest =>
      obtain ⟨init, s, rfl, hinit⟩ := ih hrest
      exact ⟨_ :: init, s, rfl, .cons hnodes hspan hinit⟩

theorem joined_append (rest : List Piece) (h : pieces ≠ []) :
    joined (pieces ++ rest) = joined pieces ++ (rest.map Piece.text).flatMap (Mark.slash :: ·) := by
  obtain ⟨piece, pieces, rfl⟩ := List.exists_cons_of_ne_nil h
  rw [joined, joined, List.cons_append, List.map_cons, List.map_cons, Text.join_cons, Text.join_cons, List.map_append,
    List.flatMap_append, List.append_assoc]

/-- Some of the first pieces give all segments, and the last of them gives the last one. -/
theorem exists_trimmed {placed : List Segment} (h : Placed k pieces placed) (hne : pieces ≠ []) :
    ∃ first segments t, first ≠ [] ∧ joined pieces = joined first ++ t ∧ Placed k first segments ∧
      collapse false segments = collapse false placed ∧ (collapse false segments).getLast? = segments.getLast? := by
  induction pieces using List.reverseRecOn generalizing placed with
  | nil => exact absurd rfl hne
  | append_singleton pieces piece ih =>
    obtain ⟨init, s, rfl, hinit⟩ := h.concat
    by_cases hdropped : (endsRecursive false init && s.isRecursive) = true
    · have hpieces : pieces ≠ [] := by
        rintro rfl
        cases hinit
        cases hdropped
      obtain ⟨first, segments, t, hfirst, hjoined, hplaced, hcollapse, hlast⟩ := ih hinit hpieces
      refine ⟨first, segments, t ++ ([piece].map Piece.text).flatMap (Mark.slash :: ·), hfirst, ?_, hplaced, ?_, hlast⟩
      · rw [joined_append [piece] hpieces, hjoined, List.append_assoc]
      · rw [hcollapse, collapse_concat, if_pos hdropped]
    · refine ⟨_, _, [], hne, (List.append_nil _).symm, h, rfl, ?_⟩
      rw [collapse_concat, if_neg hdropped, List.getLast?_concat, List.getLast?_concat]

end Parser

open Glob.Parser (Piece Placed collapse joined)

theorem parse_join {pieces : List Piece} (hne : pieces ≠ []) :
    ∃ placed, Placed 0 pieces placed ∧ Pattern.parse (joined pieces) = .ok ⟨joined pieces, collapse false placed⟩ := by
  obtain ⟨placed, hplaced, hresume⟩ := @Parser.resume_joined 0 (joined pieces) [] pieces hne
  refine ⟨placed, hplaced, ?_⟩
  have hstart : Parser.resume Scanner.start (Parser.start (joined pieces)) (joined pieces) =
      .ok (.ok (placed.foldl Parser.addSegment []).reverse) := hresume
  rw [Parser.parse_eq_resume, hstart, Parser.foldl_addSegment_nil]
  rfl

theorem parse_pieces {p : Text} {tree : Pattern} (h : Pattern.parse p = .ok tree) :
    ∃ pieces placed, pieces ≠ [] ∧ p = joined pieces ∧ Placed 0 pieces placed ∧
      tree = ⟨p, collapse false placed⟩ := by
  cases hr : Parser.resume Scanner.start (Parser.start p) p with
  | error place =>
    rw [Parser.parse_eq_resume, hr] at h
    cases h
  | ok r =>
    cases r with
    | error f =>
      rw [Parser.parse_eq_resume, hr] at h
      cases h
    | ok built =>
      obtain ⟨pieces, hne, rfl⟩ := @Parser.exists_pieces 0 p p [] built hr
      obtain ⟨placed, hplaced, hparse⟩ := parse_join hne
      exact ⟨pieces, placed, hne, rfl, hplaced, (Except.ok.inj (hparse.symm.trans h)).symm⟩

end Glob
