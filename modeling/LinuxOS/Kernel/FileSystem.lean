import LinuxOS.Kernel.Lib

/-!
# The file system of `fs_module.c`

The image is read in place: the boot block, then one 4 KB block for each inode,
then the data blocks.  Addresses are computed in 32 bits, as the kernel does.
-/

namespace LinuxOS

def maxFilename : UInt32 := 32
def maxFilecount : UInt32 := 63

def wordOfBytes (b0 b1 b2 b3 : UInt8) : UInt32 :=
  UInt32.ofNat (b0.toNat + 256 * b1.toNat + 65536 * b2.toNat + 16777216 * b3.toNat)

namespace Dentry

def name (dentry : Dentry) (index : Fin 32) : UInt8 :=
  dentry.bytes (index.castLE (by omega))

def byte (dentry : Dentry) (index : Nat) : UInt8 := dentry.bytes (Fin.ofNat 64 index)

def type (dentry : Dentry) : UInt32 :=
  wordOfBytes (dentry.bytes 32) (dentry.bytes 33) (dentry.bytes 34) (dentry.bytes 35)

def inode (dentry : Dentry) : UInt32 :=
  wordOfBytes (dentry.bytes 36) (dentry.bytes 37) (dentry.bytes 38) (dentry.bytes 39)

end Dentry

namespace FileSystem

def bytesFrom (fs : FileSystem) (addr : UInt32) (index : Nat) : UInt8 :=
  fs.memory (addr + UInt32.ofNat index)

def word (fs : FileSystem) (addr : UInt32) : UInt32 :=
  wordOfBytes (fs.memory addr) (fs.memory (addr + 1)) (fs.memory (addr + 2))
    (fs.memory (addr + 3))

/-- `boot_block->dir_entries` -/
def dirEntries (fs : FileSystem) : UInt32 := fs.word fs.bootBlock

/-- `boot_block->inode`, the number of inodes -/
def inodeCount (fs : FileSystem) : UInt32 := fs.word (fs.bootBlock + 4)

/-- `&(boot_block->entries[i])`: the entries follow 64 bytes of header. -/
def entryAddr (fs : FileSystem) (i : UInt32) : UInt32 := fs.bootBlock + 64 + 64 * i

def entry (fs : FileSystem) (i : UInt32) : Dentry :=
  ⟨fun k => fs.bytesFrom (fs.entryAddr i) k.val⟩

/-- `(inode_t*) boot_block + (inode + 1)` -/
def inodeAddr (fs : FileSystem) (inode : UInt32) : UInt32 :=
  fs.bootBlock + fourK * (inode + 1)

def inodeLength (fs : FileSystem) (inode : UInt32) : UInt32 :=
  fs.word (fs.inodeAddr inode)

/-- `inode_temp->data_block[i]`; the array has 1023 entries, the memory behind it goes on. -/
def dataBlock (fs : FileSystem) (inode i : UInt32) : UInt32 :=
  fs.word (fs.inodeAddr inode + 4 + 4 * i)

/-- `(data_block_t*) boot_block + (boot_block->inode + data + 1)` -/
def dataAddr (fs : FileSystem) (data : UInt32) : UInt32 :=
  fs.bootBlock + fourK * (fs.inodeCount + data + 1)

end FileSystem

/-! ## Directory lookup -/

/-- The loop of `read_dentry_by_name`: `count` slots are left, from `i` on. -/
def readDentryByNameLoop (fs : FileSystem) (fname : CString) :
    Nat → UInt32 → UInt32 → Option Dentry
  | 0, _, _ => none
  | count + 1, i, fnameLength =>
      let fnameLength := if fnameLength < maxFilename then fnameLength + 1 else fnameLength
      if strncmp fname.byte (fs.bytesFrom (fs.entryAddr i)) fnameLength = 0 then some (fs.entry i)
      else readDentryByNameLoop fs fname count (i + 1) fnameLength

/--
`read_dentry_by_name`: the entry it copies to `*dentry` when it returns 0, and
`none` when it returns -1 and leaves `*dentry` alone.  Every caller passes the
address of a local, so the NULL check on `dentry` never fires.
-/
def readDentryByName (fs : FileSystem) (fname : CString) : Option Dentry :=
  let fnameLength := UInt32.ofNat fname.chars.length
  if fnameLength.toInt32 > maxFilename.toInt32 then none
  else readDentryByNameLoop fs fname maxFilecount.toNat 0 fnameLength

def readDentryByIndex (fs : FileSystem) (index : UInt32) : Option Dentry :=
  if index ≥ fs.dirEntries then none else some (fs.entry index)

/-! ## File data -/

/--
The block loop of `read_data`: `count` iterations are left, from block `i` on,
and `bytesCopied` bytes have been copied.  `length` is the clamped length.
-/
def readDataLoop (fs : FileSystem) (inode offset buf length firstBlock lastBlock : UInt32) :
    Nat → UInt32 → UInt32 → Stores → UInt32 × Stores
  | 0, _, bytesCopied, stores => (bytesCopied, stores)
  | count + 1, i, bytesCopied, stores =>
      let data := fs.dataBlock inode i
      let dataLocation := fs.dataAddr data
      let startOffset := if i = firstBlock then offset % 4096 else 0
      if i = lastBlock ∧ lastBlock * 4096 > fs.inodeLength inode then
        (bytesCopied, stores)
      else
        let endOffset := if i = lastBlock then (offset + length) % 4096 else 4096
        let len := endOffset - startOffset
        readDataLoop fs inode offset buf length firstBlock lastBlock count (i + 1)
          (bytesCopied + len)
          (stores ++ memcpy (fs.bytesFrom (dataLocation + startOffset)) (buf + bytesCopied) len)

/-- `read_data`: the value it returns and what it stores through `buf`. -/
def readData (fs : FileSystem) (inode offset buf length : UInt32) : Int32 × Stores :=
  let firstBlock := offset / 4096
  let lastBlock := (offset + length) / 4096
  if buf = 0 then (-1, [])
  else if inode ≥ fs.inodeCount then (-1, [])
  else
    let clamped :=
      if offset + length > fs.inodeLength inode then fs.inodeLength inode - offset
      else length
    if offset ≥ fs.inodeLength inode then (0, [])
    else
      let result := readDataLoop fs inode offset buf clamped firstBlock lastBlock
        (lastBlock.toNat + 1 - firstBlock.toNat) firstBlock 0 []
      (result.1.toInt32, result.2)

/-! ## The operations of files and directories -/

/-- What `file_open` and `dir_open` copy to `*inode`; `none` when they return -1. -/
def fileOpen (fs : FileSystem) (filename : CString) : Option UInt32 :=
  (readDentryByName fs filename).map Dentry.inode

def dirOpen (fs : FileSystem) (filename : CString) : Option UInt32 :=
  (readDentryByName fs filename).map Dentry.inode

/-- `file_read`: the result, the position it leaves in `*offset`, and the stores. -/
def fileRead (fs : FileSystem) (inode offset buf len : UInt32) : Int32 × UInt32 × Stores :=
  let (result, stores) := readData fs inode offset buf len
  (result, if result > 0 then offset + result.toUInt32 else offset, stores)

/-- `directory_read`; `none` when `strlen` finds no end of the name. -/
def directoryRead (fs : FileSystem) (offset buf len : UInt32) : Option (Int32 × Stores) :=
  if offset ≥ maxFilecount then some (-1, [])
  else if buf = 0 then some (-1, [])
  else
    let len := if len > maxFilename then maxFilename else len
    (strlen (fs.bytesFrom (fs.entryAddr offset))).map fun nameLength =>
      let len := if len > nameLength then nameLength else len
      (len.toInt32, memcpy (fs.bytesFrom (fs.entryAddr offset)) buf len)

/-- `dir_read`: the result, the position it leaves in `*offset`, and the stores. -/
def dirRead (fs : FileSystem) (offset buf len : UInt32) :
    Option (Int32 × UInt32 × Stores) :=
  (directoryRead fs offset buf len).map fun (result, stores) =>
    (result, if result > 0 then offset + 1 else offset, stores)

end LinuxOS
