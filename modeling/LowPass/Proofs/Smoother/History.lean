/-
What a filter remembers of all that it was asked: the samples since it last went back to
zero.

A request leaves the filter that those samples leave, fed one by one to a fresh one
(`serve_since`), so every answer can be read off them. Blocks are no more than their
samples, wherever they are cut (`serveAll_blocks`). `served_since_restart` has both; none
of it depends on the arithmetic of a step, so it holds for outputs that are infinite or NaN
too.
-/
import LowPass.Proofs.Smoother.Serving
import Mathlib.Data.List.DropRight

namespace LowPass
namespace Smoother

/-! ## Samples one by one -/

/-- The outputs of a fresh filter that is fed samples one by one. -/
def singly (xs : List Binary32) : List Binary32 :=
  (fresh.serveAll (xs.map .sample)).map Prod.snd

/-- The last output of a fresh filter so fed, which is zero if there is none. -/
def lastSingly (xs : List Binary32) : Binary32 := (singly xs).getLast?.getD (.zero false)

theorem serveAll_sample (s : Smoother) (xs : List Binary32) :
    s.serveAll (xs.map .sample) = (s.block xs).1.map fun y => (.value y, y) := by
  induction xs generalizing s with
  | nil => rfl
  | cons x xs ih =>
    rw [List.map_cons, serveAll, serve]
    simp [block, ih]

theorem singly_eq (xs : List Binary32) : singly xs = (fresh.block xs).1 := by
  rw [singly, serveAll_sample, List.map_map]
  exact List.map_id _

theorem output_block (s : Smoother) (xs : List Binary32) :
    (s.block xs).2.output = (s.block xs).1.getLast?.getD s.output := by
  induction xs generalizing s with
  | nil => rfl
  | cons x xs ih => rw [block, ih, List.getLast?_cons, Option.getD_some]

theorem lastSingly_eq (xs : List Binary32) : lastSingly xs = (fresh.block xs).2.output := by
  rw [lastSingly, singly_eq, output_block]
  rfl

/-! ## One request -/

/-- The samples that a course of requests has brought since the last that went back to
zero. -/
def sinceRestart (rs : List Request) : List Binary32 :=
  (rs.rtakeWhile fun r => !r.restarts).flatMap Request.inputs

theorem sinceRestart_concat (rs : List Request) (r : Request) :
    sinceRestart (rs ++ [r]) = if r.restarts then [] else sinceRestart rs ++ r.inputs := by
  rw [sinceRestart, List.rtakeWhile_concat]
  cases r.restarts <;> simp [sinceRestart]

/-- What a request is answered when these are the samples since the filter was at zero, its
own among them. -/
def answer (xs : List Binary32) : Request → Reply
  | .sample _ => .value (lastSingly xs)
  | .samples block => .values ((singly xs).rtake block.length)
  | .output => .value (lastSingly xs)
  | .reset => .done
  | .renew => .done

theorem rtake_append_length {α : Type} (xs ys : List α) : (xs ++ ys).rtake ys.length = ys := by
  rw [List.rtake, List.length_append, Nat.add_sub_cancel, List.drop_left]

/-- **One request.** The filter that samples since a restart have left answers as they say,
and is left as they and the samples of the request leave it. -/
theorem serve_since (before : List Request) (r : Request) :
    (fresh.block (sinceRestart before)).2.serve r =
      (answer (sinceRestart (before ++ [r])) r,
        (fresh.block (sinceRestart (before ++ [r]))).2) := by
  rw [sinceRestart_concat]
  generalize sinceRestart before = xs
  cases r with
  | sample x =>
    have hblock : fresh.block (xs ++ [x]) = _ := block_append fresh xs [x]
    simp [serve, answer, lastSingly_eq, Request.restarts, Request.inputs, hblock, block]
  | samples ys =>
    have hanswer : (singly (xs ++ ys)).rtake ys.length = ((fresh.block xs).2.block ys).1 := by
      rw [singly_eq, block_append, ← length_block (fresh.block xs).2 ys, rtake_append_length]
    simp [serve, answer, Request.restarts, Request.inputs, hanswer, block_append]
  | output => simp [serve, answer, lastSingly_eq, Request.restarts, Request.inputs]
  | reset => rfl
  | renew => rfl

/-! ## All requests -/

/-- Any further requests are answered from the samples since the last restart before each. -/
theorem serveAll_since_from (before rs : List Request) :
    (fresh.block (sinceRestart before)).2.serveAll rs =
      rs.mapIdx fun i r =>
        let xs := sinceRestart (before ++ rs.take (i + 1))
        (answer xs r, lastSingly xs) := by
  -- each request passes from the ones to come to the ones before
  induction rs generalizing before with
  | nil => rfl
  | cons r rs ih =>
    rw [serveAll, serve_since, List.mapIdx_cons]
    simp only [ih, List.take_succ_cons, List.take_zero, lastSingly_eq, List.append_assoc,
      List.cons_append, List.nil_append]

/-! ## Blocks -/

/-- The filter after a course of requests. -/
def after (s : Smoother) (rs : List Request) : Smoother := rs.foldl (fun s r => (s.serve r).2) s

theorem length_serveAll (s : Smoother) (rs : List Request) :
    (s.serveAll rs).length = rs.length := by
  induction rs generalizing s with
  | nil => rfl
  | cons r rs ih => simp [serveAll, ih]

theorem serveAll_append (s : Smoother) (rs later : List Request) :
    s.serveAll (rs ++ later) = s.serveAll rs ++ (s.after rs).serveAll later := by
  induction rs generalizing s with
  | nil => rfl
  | cons r rs ih => simp [serveAll, ih, after]

/-- Blocks one after the other give the outputs of all their samples, and leave the filter
as those do. -/
theorem serveAll_blocks (s : Smoother) (blocks : List (List Binary32)) :
    (s.serveAll (blocks.map .samples)).flatMap (·.1.outputs) = (s.block blocks.flatten).1 ∧
      s.after (blocks.map .samples) = (s.block blocks.flatten).2 := by
  induction blocks generalizing s with
  | nil => exact ⟨rfl, rfl⟩
  | cons xs blocks ih =>
    obtain ⟨houtputs, hafter⟩ := ih (s.block xs).2
    rw [List.flatten_cons, block_append]
    constructor
    · rw [← houtputs]
      rfl
    · rw [← hafter]
      rfl

theorem answers_of_blocks (before later : List Request) (blocks : List (List Binary32)) :
    let answers := (fresh.serveAll (before ++ blocks.map .samples ++ later)).drop before.length
    (answers.take blocks.length).flatMap (·.1.outputs) =
        ((fresh.after before).block blocks.flatten).1 ∧
      answers.drop blocks.length =
        ((fresh.after before).block blocks.flatten).2.serveAll later := by
  intro answers
  obtain ⟨houtputs, hafter⟩ := serveAll_blocks (fresh.after before) blocks
  have hlength : ((fresh.after before).serveAll (blocks.map .samples)).length = blocks.length := by
    rw [length_serveAll, List.length_map]
  have hanswers : answers = (fresh.after before).serveAll (blocks.map .samples) ++
      ((fresh.after before).block blocks.flatten).2.serveAll later := by
    simp only [answers]
    rw [List.append_assoc, serveAll_append, List.drop_left' (length_serveAll fresh before),
      serveAll_append, hafter]
  rw [hanswers, List.take_left' hlength, List.drop_left' hlength]
  exact ⟨houtputs, rfl⟩

/-- **A filter remembers the samples since its last restart, and nothing else.** Each answer,
and the output after it, is that of a fresh filter fed those samples one by one: a sample is
answered by the last output, a block by as many of the last as it has samples, and the
output is the last, or zero before any sample. Blocks with the same samples between them
bring the same outputs, and the same answers to whatever is asked later. -/
theorem served_since_restart :
    (∀ rs : List Request, fresh.serveAll rs = rs.mapIdx fun i r =>
        let xs := sinceRestart (rs.take (i + 1))
        let outputs := (fresh.serveAll (xs.map .sample)).map Prod.snd
        let last := outputs.getLast?.getD (.zero false)
        (match r with
          | .sample _ => .value last
          | .samples block => .values (outputs.rtake block.length)
          | .output => .value last
          | .reset => .done
          | .renew => .done, last)) ∧
      ∀ (before later : List Request) (blocks blocks' : List (List Binary32)),
        blocks.flatten = blocks'.flatten →
        let answers := fun blocks : List (List Binary32) =>
          (fresh.serveAll (before ++ blocks.map .samples ++ later)).drop before.length
        ((answers blocks).take blocks.length).flatMap (·.1.outputs) =
            ((answers blocks').take blocks'.length).flatMap (·.1.outputs) ∧
          (answers blocks).drop blocks.length = (answers blocks').drop blocks'.length := by
  constructor
  · intro rs
    exact serveAll_since_from [] rs
  · intro before later blocks blocks' hflatten
    obtain ⟨houtputs, hlater⟩ := answers_of_blocks before later blocks
    obtain ⟨houtputs', hlater'⟩ := answers_of_blocks before later blocks'
    exact ⟨houtputs.trans (hflatten ▸ houtputs'.symm), hlater.trans (hflatten ▸ hlater'.symm)⟩

/-- An output that becomes infinite within one block and NaN at its end, or in the next. -/
theorem served_since_restart_overflow :
    let inf := Binary32.infinite false
    let zero := Binary32.zero true
    let blocks := [[inf, zero], [zero]]
    let blocks' := [[], [inf], [zero, zero], []]
    let answers := fun blocks : List (List Binary32) =>
      (fresh.serveAll ([.sample inf, .reset] ++ blocks.map .samples ++ [.output])).drop 2
    blocks.flatten = blocks'.flatten ∧
      answers blocks =
        [(.values [inf, .nan], .nan), (.values [.nan], .nan), (.value .nan, .nan)] ∧
      ((answers blocks').take 4).flatMap (·.1.outputs) = [inf, .nan, .nan] ∧
      (answers blocks').drop 4 = [(.value .nan, .nan)] := by
  intro inf zero blocks blocks' answers
  have hflatten : blocks.flatten = blocks'.flatten := rfl
  have hanswers : answers blocks =
      [(.values [inf, .nan], .nan), (.values [.nan], .nan), (.value .nan, .nan)] := by
    decide +kernel
  obtain ⟨houtputs, hlater⟩ :=
    served_since_restart.2 [.sample inf, .reset] [.output] blocks blocks' hflatten
  refine ⟨hflatten, hanswers, houtputs.symm.trans ?_, hlater.symm.trans ?_⟩
  · exact congrArg (fun told => (told.take 2).flatMap fun a => a.1.outputs) hanswers
  · exact congrArg (fun told => told.drop 2) hanswers

end Smoother
end LowPass
