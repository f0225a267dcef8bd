/-
  Canari.Mls.SchedulerMoves — what a stretch of the scheduler's code does to frames
  (see `Canari.Mls.PerGroupScheduler`).

  `Frames` is a state without its mutex: the queues, the frame the drain has picked, what was
  enqueued and what was handed over. A stretch is made of moves: a frame is enqueued, picked, put
  back or handed over, and the end of a drain releases what is stranded. What every move keeps,
  every event but a release keeps (`step_frames`).
-/

import Canari.Mls.PerGroupScheduler

namespace Canari.Mls.Scheduler

open Lib

variable {β : Type} {mode : MlsPerGroupQueueMode}

structure Frames (β : Type) where
  queues : Queues β
  hand : Option (PickedFrame β)
  enqueued : List (MlsQueuedMessage β)
  handed : List (MlsQueuedMessage β)

def Phase.hand : Phase β → Option (PickedFrame β)
  | .locking picked => some picked
  | _ => none

def St.frames (s : St β) : Frames β := ⟨s.queues, s.phase.hand, s.enqueued, s.handed⟩

inductive Move (mode : MlsPerGroupQueueMode) : Frames β → Frames β → Prop
  | enqueue {f : Frames β} (msg : MlsQueuedMessage β) :
      Move mode f { f with queues := f.queues.enqueue mode msg, enqueued := f.enqueued ++ [msg] }
  | pick {f : Frames β} {lock : Lock} {picked : Option (PickedFrame β)} {queues : Queues β} (hand : f.hand = none)
      (h : f.queues.pickNext mode lock = (picked, queues)) : Move mode f { f with queues, hand := picked }
  | putBack {f : Frames β} {picked : PickedFrame β} (hand : f.hand = some picked) :
      Move mode f { f with queues := f.queues.putBack picked, hand := none }
  | handOver {f : Frames β} {picked : PickedFrame β} (hand : f.hand = some picked) :
      Move mode f { f with hand := none, handed := f.handed ++ [picked.msg] }
  | stranded {f : Frames β} : Move mode f { f with queues := f.queues.releaseStrandedWelcomeBuffers }

def Unmoved (mode : MlsPerGroupQueueMode) (J : Frames β → Prop) : Prop := ∀ {f f'}, Move mode f f' → J f → J f'

section Stretches

variable {J : Frames β → Prop} {s s' : St β}

theorem handOver_frames (hm : Unmoved mode J) {picked : PickedFrame β} {f : Frames β} (hand : f.hand = some picked)
    (hq : s.queues = f.queues) (he : s.enqueued = f.enqueued) (hd : s.handed = f.handed)
    (hj : J f) : J (handOver s picked).frames := by
  have h := hm (.handOver hand) hj
  rw [← hq, ← he, ← hd] at h
  exact h

theorem loop_frames (hm : Unmoved mode J) (hj : J ⟨s.queues, none, s.enqueued, s.handed⟩) : J (loop mode s).frames := by
  unfold loop
  split
  · exact hj
  · split
    · rename_i queues hq
      exact hm (.pick rfl hq) hj
    · rename_i picked queues hq
      have hpicked := hm (.pick rfl hq) hj
      split
      · exact handOver_frames hm rfl rfl rfl rfl hpicked
      · exact hpicked

theorem afterFrame_frames (hm : Unmoved mode J)
    (hj : J ⟨s.queues, none, s.enqueued, s.handed⟩) : J (afterFrame mode s).frames := by
  unfold afterFrame
  split
  · exact hj
  · exact loop_frames hm hj

/-- What every move keeps and this release, if it is one, the step keeps. -/
theorem step_frames (hm : Unmoved mode J) {e : Event β}
    (hrelease : ∀ g, e = .releaseWelcomeBuffer g → J { s.frames with queues := s.queues.releaseWelcomeBuffer g })
    (hj : J s.frames) (hs : step mode s e = some s') : J s'.frames := by
  have hidle : s.phase.hand = none → J ⟨s.queues, none, s.enqueued, s.handed⟩ := by
    intro hand
    have h := hj
    rw [St.frames, hand] at h
    exact h
  cases e with
  | enqueue msg =>
    cases hs
    exact hm (.enqueue msg) hj
  | releaseWelcomeBuffer g =>
    cases hs
    exact hrelease g rfl
  | drain =>
    simp only [step] at hs
    split at hs
    · rename_i hp
      cases hs
      split
      · exact hj
      · exact hidle (by rw [hp]; rfl)
    · cases hs
      exact hj
  | drainStarted threw =>
    simp only [step] at hs
    split at hs
    · rename_i hp
      cases hs
      split
      · exact hidle (by rw [hp]; rfl)
      · exact loop_frames hm (hidle (by rw [hp]; rfl))
    · cases hs
  | lockSettled =>
    simp only [step] at hs
    split at hs
    · rename_i picked hp
      have hand : s.frames.hand = some picked := by
        rw [St.frames, hp]
        rfl
      split at hs
      · cases hs
      · cases hs
        exact loop_frames hm (hm (.putBack hand) hj)
      · cases hs
        exact handOver_frames hm hand rfl rfl rfl hj
      · cases hs
        exact handOver_frames hm hand rfl rfl rfl hj
    · cases hs
  | processed threw =>
    simp only [step] at hs
    split at hs
    · rename_i picked hp
      cases hs
      have h := hidle (by rw [hp]; rfl)
      have hreleased : J (afterFrame mode
        (if picked.msg.isWelcome = true then s else { s with lock := s.lock.releaseFrame })).frames := by
        split
        · exact afterFrame_frames hm h
        · exact afterFrame_frames hm h
      split
      · split
        · exact h
        · exact h
      · exact hreleased
    · cases hs
  | yielded =>
    simp only [step] at hs
    split at hs
    · rename_i hp
      cases hs
      exact loop_frames hm (hidle (by rw [hp]; rfl))
    · cases hs
  | drainEnded =>
    simp only [step] at hs
    split at hs
    · rename_i hp
      cases hs
      exact hm .stranded (hidle (by rw [hp]; rfl))
    · cases hs
  | acquireExclusive task commitGroup =>
    cases hs
    exact hj
  | release =>
    simp only [step] at hs
    split at hs
    · cases hs
      exact hj
    · cases hs
  | lend groupId =>
    obtain ⟨l, -, rfl⟩ := Option.map_eq_some_iff.mp hs
    exact hj
  | answered =>
    obtain ⟨l, -, rfl⟩ := Option.map_eq_some_iff.mp hs
    exact hj
  | reclaimed =>
    obtain ⟨l, -, rfl⟩ := Option.map_eq_some_iff.mp hs
    exact hj

end Stretches

end Canari.Mls.Scheduler
