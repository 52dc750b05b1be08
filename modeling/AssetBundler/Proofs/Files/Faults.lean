/-
  AssetBundler.Proofs.Files.Faults
  ────────────────────────────────
  **OPERATIONS THAT FAIL BY THEMSELVES.**

  A disk may be full and a directory may be forbidden: besides what the tree
  says, every operation that makes a directory or writes a file may fail on its
  own.  A list of faults says of the operations, in the order in which they
  are done, which of them do.  Without faults they are those of the tree:

    • `FaultM` — actions on files under faults,
    • `FaultM.Ensures` — what holds whatever the faults are,
    • `FaultM.Gives` — what an action gives without faults,
    • `FileTree.tryDirectories`, `FileTree.tryWrite` — the operations.
-/
import AssetBundler.Proofs.Files.Places

namespace AssetBundler

/-! ## §1. Actions under faults. -/

/-- A fault of an operation. -/
structure Fault where
  error : FileError
  /-- What has been written of a file, if the fault comes after its beginning. -/
  part? : Option ByteArray := none

/-- The faults of operations to come, in order; behind the end of the list nothing goes wrong. -/
abbrev Faults := List (Option Fault)

/-- An action on files under faults. -/
abbrev FaultM := StateM Faults

namespace FaultM

variable {α β : Type} {action : FaultM α} {next : α → FaultM β} {a : α} {b : β}

/-- The fault of the next operation. -/
def fault? : FaultM (Option Fault) := fun faults =>
  (faults.head?.join, faults.tail)

/-- Whatever the faults are, the action ends with something that meets a condition. -/
def Ensures (action : FaultM α) (post : α → Prop) : Prop :=
  ∀ faults, post (action faults).1

/-- Without faults the action ends with a value. -/
def Gives (action : FaultM α) (a : α) : Prop :=
  action [] = (a, [])

variable {post : β → Prop} {mid : α → Prop}

theorem ensures_pure (h : post b) : Ensures (pure b) post := fun _ => h

theorem Ensures.bind (h : Ensures action mid) (hnext : ∀ a, mid a → Ensures (next a) post) :
    Ensures (action >>= next) post := fun faults =>
  hnext _ (h faults) (action faults).2

theorem ensures_fault? : Ensures fault? (fun _ => True) := fun _ => trivial

theorem gives_pure (a : α) : Gives (pure a) a := rfl

theorem Gives.bind (h : Gives action a) (hnext : Gives (next a) b) : Gives (action >>= next) b := by
  show next (action []).1 (action []).2 = (b, [])
  rw [h]
  exact hnext

theorem gives_fault? : Gives fault? none := rfl

end FaultM

/-! ## §2. Operations. -/

namespace FileTree

open FaultM

variable {tree tree' : FileTree} {path : Path} {content : ByteArray}

/-- Makes one directory. -/
def tryDirectory (tree : FileTree) (path : Path) : FaultM (Except FileError FileTree) := do
  match ← fault? with
  | some fault => return .error fault.error
  | none => return tree.makeDirectory path

/-- What making a directory ends with that may be there already. -/
def directoryThere (tree : FileTree) (path : Path) (e : FileError) : FileTree × Option FileError :=
  if tree.isDirectory path then (tree, none) else (tree, some e)

/-- Makes a directory with all that lead to it; the tree keeps what was made before a failure. The
first argument exceeds the number of components. -/
def tryDirectories : Nat → FileTree → Path → FaultM (FileTree × Option FileError)
  | 0, tree, _ => return (tree, some .notFound)
  | fuel + 1, tree, path => do
    if path.text == "" then return (tree, none)
    else match ← tree.tryDirectory path with
      | .ok tree => return (tree, none)
      | .error .notFound =>
        match path.parent? with
        | none => return (tree, some .notFound)
        | some parent =>
          match ← tryDirectories fuel tree parent with
          | (tree, some e) => return (tree, some e)
          | (tree, none) =>
            match ← tree.tryDirectory path with
            | .ok tree => return (tree, none)
            | .error e => return tree.directoryThere path e
      | .error e => return tree.directoryThere path e

/-- Makes a directory with all that lead to it. -/
def tryCreateDirectories (tree : FileTree) (path : Path) : FaultM (FileTree × Option FileError) :=
  tryDirectories (path.segments.length + 2) tree path

/-- What a fault leaves of a file that is being written. -/
def partlyWritten (tree : FileTree) (path : Path) (part? : Option ByteArray) : FileTree :=
  (part?.bind fun part => (tree.write path part).toOption).getD tree

/-- Puts bytes into a file. -/
def tryWrite (tree : FileTree) (path : Path) (content : ByteArray) :
    FaultM (FileTree × Option FileError) := do
  match ← fault? with
  | some fault => return (tree.partlyWritten path fault.part?, some fault.error)
  | none =>
    match tree.write path content with
    | .ok tree => return (tree, none)
    | .error e => return (tree, some e)

/-! ## §3. Without faults. -/

/-- A walk that fails does so for the same reason when links at the end are followed. -/
theorem walk_error {e : FileError} : ∀ (fuel links : Nat) {here : Location} {segments : List String},
    tree.walk false fuel links here segments = .error e →
      tree.walk true fuel links here segments = .error e := by
  intro fuel
  induction fuel with
  | zero => exact fun _ _ _ h => h
  | succ fuel ih =>
      intro links here segments h
      cases segments with
      | nil => cases h
      | cons segment rest =>
          rw [walk] at h ⊢
          by_cases hidle : (segment == "" || segment == ".") = true
          · rw [if_pos hidle] at h ⊢
            exact ih _ h
          · rw [if_neg hidle] at h ⊢
            by_cases hup : (segment == "..") = true
            · rw [if_pos hup] at h ⊢
              exact ih _ h
            · rw [if_neg hup] at h ⊢
              dsimp only at h ⊢
              cases hentry : tree.entry? (here ++ [segment]) with
              | none =>
                  rw [hentry] at h
                  exact h
              | some found =>
                  rw [hentry] at h
                  cases found with
                  | directory => exact ih _ h
                  | file content => exact h
                  | link target =>
                      -- a link at the end is no error, so the walk goes on behind it
                      dsimp only at h ⊢
                      rw [if_neg (by simp)]
                      split at h
                      next => cases h
                      next =>
                        split at h
                        next hlinks =>
                          rw [if_pos hlinks]
                          exact h
                        next hlinks =>
                          rw [if_neg hlinks]
                          exact ih _ h

/-- Where no directory can be made for want of one above, there is none. -/
theorem isDirectory_of_notFound (h : tree.makeDirectory path = .error .notFound) :
    tree.isDirectory path = false := by
  have hfind : tree.find false path = .error .notFound := by
    unfold makeDirectory at h
    split at h
    next => cases h
    next => cases h
    next hfind =>
      cases h
      exact hfind
  have hresolve : tree.resolve path = .error .notFound := by
    unfold resolve
    unfold find at hfind ⊢
    split at hfind
    next hempty =>
      rw [if_pos hempty]
    next hempty =>
      rw [if_neg hempty]
      dsimp only at hfind ⊢
      rw [walk_error _ _ hfind]
  unfold isDirectory
  rw [hresolve]

theorem gives_tryDirectory (tree : FileTree) (path : Path) :
    Gives (tree.tryDirectory path) (tree.makeDirectory path) :=
  gives_fault?.bind (gives_pure _)

theorem gives_directoryThere (tree : FileTree) (path : Path) (e : FileError) :
    Gives (pure (tree.directoryThere path e))
      (match (if tree.isDirectory path then .ok tree else .error e : Except FileError FileTree) with
        | .ok tree => (tree, none)
        | .error e => (tree, some e)) := by
  unfold directoryThere
  split <;> exact gives_pure _

/-- **Without faults** directories are made as by the tree. -/
theorem gives_tryDirectories : ∀ (fuel : Nat) (tree : FileTree) (path : Path),
    Gives (tryDirectories fuel tree path) (makeDirectories fuel tree path) := by
  intro fuel
  induction fuel with
  | zero => exact fun tree _ => gives_pure _
  | succ fuel ih =>
      intro tree path
      unfold tryDirectories makeDirectories
      split
      next => exact gives_pure _
      next =>
        refine (gives_tryDirectory tree path).bind ?_
        unfold ensureDirectory
        cases hmade : tree.makeDirectory path with
        | ok made => exact gives_pure _
        | error e =>
            cases e with
            | notFound =>
                rw [isDirectory_of_notFound hmade]
                cases hparent : path.parent? with
                | none => exact gives_pure _
                | some parent =>
                    refine (ih tree parent).bind ?_
                    dsimp only
                    rcases makeDirectories fuel tree parent with ⟨above, _ | e⟩
                    · refine (gives_tryDirectory above path).bind ?_
                      dsimp only
                      cases above.makeDirectory path with
                      | ok made => exact gives_pure _
                      | error e => exact gives_directoryThere above path e
                    · exact gives_pure _
            | _ =>
                dsimp only
                unfold directoryThere
                split <;> exact gives_pure _

theorem gives_tryWrite (tree : FileTree) (path : Path) (content : ByteArray) :
    Gives (tree.tryWrite path content) (match tree.write path content with
      | .ok tree => (tree, none)
      | .error e => (tree, some e)) := by
  refine gives_fault?.bind ?_
  cases tree.write path content <;> exact gives_pure _

end FileTree

end AssetBundler
