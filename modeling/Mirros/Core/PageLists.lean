import Mirros.Core.Exec
import Mirros.Core.List

/-!
# Walks over Lists of Pages

The loops of `kernel/task.c` over the pages of a task, on the pointers of the lists.
`Core.Task` and `Core.Exec` have the lists of a task as sequences, and a loop that goes
on behind the end of its sequence has no result there. In memory such a list is a ring
through a head in the `mm_struct`, and a loop that goes on takes the head for the list
node of a `struct page`. What it then reads there as `free_base` is a word of the
`mm_struct`.

All four lists of a task go through the same field of `struct page`, a union, so a page
is one node.

## Main definitions

* `PageNode`: The nodes of the lists, and the null pointer.
* `visits`: The nodes that the loops of `copy_process_memory` take for pages.
* `Kernel.copyNodes`, `Kernel.copyProcessMemoryAt`: `copy_process_memory`.
* `Kernel.loadNodes`, `Kernel.loadElfSectionAt`: `load_elf_section`.
* `Kernel.releaseNodes`, `Kernel.releaseTaskMemoryAt`: `release_task_memory`.
-/

namespace Mirros

/-- `-EIO` -/
def errIo : Int := -5

/-- The list node of a page, the heads of the lists of a task, and the null pointer. -/
inductive PageNode where
  | null
  | stackList (t : Nat)
  | elfList (t : Nat)
  | elfStackList (t : Nat)
  | elfImageList (t : Nat)
  | page (q : Nat)
  deriving DecidableEq, Repr

/-- The nodes behind `list` that a loop of `copy_process_memory` takes for pages. -/
def visits (links : Links PageNode) : Nat → PageNode → List PageNode
  | 0, _ => []
  | n + 1, list => links.next list :: visits links n (links.next list)

/-- `list_next`, some times, with the test for a null pointer each time. -/
def listNexts (links : Links PageNode) : Nat → PageNode → Option PageNode
  | 0, list => some list
  | n + 1, list =>
      if links.next list = .null then none else listNexts links n (links.next list)

/-- `ramdisk_read` for any `int`, with what it returns. The end of the read is an
    address, and wraps. -/
def ramdiskReadInt (ram : Ram) (file : RamFile) (buf : Nat) (size : Int) : Int × Ram × RamFile :=
  let copySize : Int :=
    if (file.base + file.size : Int) < (file.curr + size) % (u32Size : Int) then
      (file.base + file.size : Int) - file.curr
    else size
  let n := copySize.toNat
  (n, memcpy ram buf file.curr n, { file with curr := file.curr + n })

namespace Kernel

/-- The loops of `copy_process_memory`, as long as the nodes are pages. -/
def copyNodes (mm : Mm) (links : Links PageNode) : Nat → PageNode → PageNode → Ram → Option Ram
  | 0, _, _, ram => some ram
  | n + 1, listOld, listNew, ram =>
      match links.next listOld, links.next listNew with
      | .page old, .page new =>
          copyNodes mm links n (.page old) (.page new)
            (copyPageVa ram (mm.pageIdToVa new) (mm.pageIdToVa old))
      | _, _ => none

/-- `copy_process_memory` -/
def copyProcessMemoryAt (k : Kernel) (links : Links PageNode) (old new : Nat) : Option Kernel := do
  let nm := (k.task new).mm
  -- `s` and `e` are signed.
  let ram ← copyNodes k.mm links (pageTurns nm.stackSize) (.elfStackList old) (.elfStackList new)
    k.ram
  let ram ← copyNodes k.mm links (pageTurns (add32 nm.elfSize pageSize)) (.elfImageList old)
    (.elfImageList new) ram
  return { k with ram := ram }

/-- `page->free_base` of the page a node is taken for. -/
def freeBaseAt (mm : Mm) (stray : PageNode → Nat) : PageNode → Nat
  | .page q => (mm.pageTable q).freeBase
  | list => stray list

/-- The loop of `load_elf_section`, with a bound on its turns. -/
def loadNodes (mm : Mm) (links : Links PageNode) (stray : PageNode → Nat) (isBss : Bool) :
    Nat → PageNode → Nat → Int → Ram → RamFile → Option (Int × Ram × RamFile)
  | 0, _, _, _, _, _ => none
  | turns + 1, list, j, k, ram, file =>
      let baseAddr := add32 (freeBaseAt mm stray list) j
      let n : Int := if (pageSize : Int) ≤ k then (pageSize : Int) - j else k
      let (i, ram, file) :=
        if isBss then (0, memzero ram baseAddr n.toNat, file)
        else ramdiskReadInt ram file baseAddr n
      if i < 0 then some (errIo, ram, file)
      else if 0 < k - n then loadNodes mm links stray isBss turns (links.next list) 0 (k - n) ram file
      else some (0, ram, file)

/-- `load_elf_section`, with what it reads as `free_base` behind the heads. -/
def loadElfSectionAt (k : Kernel) (links : Links PageNode) (stray : PageNode → Nat) (t : Nat)
    (file : RamFile) (s : ElfSection) : Option (Int × RamFile × Kernel) :=
  if s.loadAddr < processUserExecBase ∨ s.size = 0 then some (errInval, file, k)
  else
    let base := s.loadAddr - processUserBase
    -- The head is not a page, so the first page is one step away.
    match listNexts links (base / pageSize + 1) (.elfImageList t) with
    | none => some (errNoMem, file, k)
    | some list =>
        let ms := (k.task t).mm
        let k := k.setTaskMm t { ms with elfSize := add32 ms.elfSize s.size }
        (loadNodes k.mm links stray s.isBss (s.size / pageSize + 2) list (base % pageSize)
          (toInt32 s.size) k.ram (ramdiskSeek file s.offset)).map
            (fun r => (r.1, r.2.2, { k with ram := r.2.1 }))

/-- The loop of `_release_task_memory`, with a bound on its turns: the addresses it frees,
    and the links and the pages after it. It unlinks the node it stands on and goes on from
    there. -/
def releaseNodes (head : PageNode) :
    Nat → Links PageNode → Mm → PageNode → Option (List Nat × Links PageNode × Mm)
  | 0, _, _, _ => none
  | turns + 1, links, mm, list =>
      if list = head then some ([], links, mm)
      else
        match list with
        | .page q => do
            let links := listDel links list
            let addr := mm.pageIdToVa q
            let mm ← mm.freePages addr
            let (freed, links, mm) ← releaseNodes head turns links mm (links.next list)
            return (addr :: freed, links, mm)
        | _ => none

/-- `_release_task_memory` for some lists one after the other. A list cannot have more nodes
    than there are addresses. -/
def releaseHeads :
    List PageNode → Links PageNode → Mm → Option (List Nat × Links PageNode × Mm)
  | [], links, mm => some ([], links, mm)
  | head :: heads, links, mm => do
      let (freed, links, mm) ← releaseNodes head u32Size links mm (links.next head)
      let (more, links, mm) ← releaseHeads heads links mm
      return (freed ++ more, links, mm)

/-- The heads in the order in which `release_task_pages` and `release_task_page_table` go
    over them. -/
def taskHeads (t : Nat) : List PageNode :=
  [.elfStackList t, .elfImageList t, .stackList t, .elfList t]

/-- `release_task_memory` on the pointers: the addresses it frees, and the links and the
    pages after it. -/
def releaseTaskMemoryAt (k : Kernel) (links : Links PageNode) (t : Nat) :
    Option (List Nat × Links PageNode × Mm) := do
  let (freed, links, mm) ← if (k.task t).flag &&& processTypeUser ≠ 0 then
      releaseHeads (taskHeads t) links k.mm
    else some ([], links, k.mm)
  -- The stack is remembered where it started.
  let origin := (k.task t).stackOrigin
  if origin ≠ 0 then do
    let mm ← mm.freePages origin
    return (freed ++ [origin], links, mm)
  else return (freed, links, mm)

end Kernel

end Mirros
