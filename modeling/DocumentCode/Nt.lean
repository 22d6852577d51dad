import Mathlib.Data.Int.Notation

/-!
# Status codes of the NT kernel

`NTSTATUS` is a 32-bit code; `NT_SUCCESS` looks at its top bit. Of the many codes
only those are named that the drivers modelled here write themselves. The
functions of the kernel may return any other.
-/

namespace DocumentCode

/-- A status code. -/
abbrev NTSTATUS := UInt32

/-- `NT_SUCCESS(Status)`: the code is not negative as a `LONG`. -/
def NT_SUCCESS (RC : NTSTATUS) : Bool := RC < 0x80000000

def STATUS_SUCCESS : NTSTATUS := 0x00000000
def STATUS_PENDING : NTSTATUS := 0x00000103
def STATUS_DATATYPE_MISALIGNMENT : NTSTATUS := 0x80000002
def STATUS_BUFFER_OVERFLOW : NTSTATUS := 0x80000005
def STATUS_ACCESS_VIOLATION : NTSTATUS := 0xC0000005
def STATUS_IN_PAGE_ERROR : NTSTATUS := 0xC0000006
def STATUS_INVALID_PARAMETER : NTSTATUS := 0xC000000D
def STATUS_INVALID_DEVICE_REQUEST : NTSTATUS := 0xC0000010
def STATUS_END_OF_FILE : NTSTATUS := 0xC0000011
def STATUS_ILLEGAL_INSTRUCTION : NTSTATUS := 0xC000001D
def STATUS_ACCESS_DENIED : NTSTATUS := 0xC0000022
def STATUS_INSUFFICIENT_RESOURCES : NTSTATUS := 0xC000009A
def STATUS_INSTRUCTION_MISALIGNMENT : NTSTATUS := 0xC00000AA
def STATUS_FILE_IS_A_DIRECTORY : NTSTATUS := 0xC00000BA
def STATUS_INVALID_USER_BUFFER : NTSTATUS := 0xC00000E8
def STATUS_NOT_A_DIRECTORY : NTSTATUS := 0xC0000103
def STATUS_USER_MAPPED_FILE : NTSTATUS := 0xC0000243

end DocumentCode
