/-! # System variables

What the ROM of a 48K machine leaves between the printer buffer and the program after NEW: the
system variables, the channel information and the mark at its end. -/

namespace Spectrum.Snapshot

def systemVariablesStart : UInt16 := 23552

/-- The system variables and channels by name, with their bytes after NEW. -/
def systemVariables : List (String × List UInt8) :=
  [("KSTATE", [255, 0, 0, 0, 13, 3, 32, 13]),
   ("LAST-K", [0]),
   ("REPDEL", [35]),
   ("REPPER", [5]),
   ("DEFADD", [0, 0]),
   ("K-DATA", [0]),
   ("TVDATA", [0, 0]),
   ("STRMS", [1, 0, 6, 0, 11, 0, 1, 0, 1, 0, 6, 0, 16, 0, 0, 0, 0, 0, 0, 0, 0, 0, 0, 0, 0, 0, 0,
     0, 0, 0, 0, 0, 0, 0, 0, 0, 0, 0]),
   ("CHARS", [0, 60]),
   ("RASP", [64]),
   ("PIP", [0]),
   ("ERR-NR", [255]),
   ("FLAGS", [204]),
   ("TV-FLAG", [0]),
   ("ERR-SP", [84, 255]),
   ("LIST-SP", [0, 0]),
   ("MODE", [0]),
   ("NEWPPC", [0, 0]),
   ("NSPPC", [0]),
   ("PPC", [0, 0]),
   ("SUBPPC", [0]),
   ("BORDCR", [56]),
   ("E-PPC", [0, 0]),
   ("VARS", [203, 92]),
   ("DEST", [0, 0]),
   ("CHANS", [182, 92]),
   ("CURCHL", [182, 92]),
   ("PROG", [203, 92]),
   ("NXTLIN", [0, 0]),
   ("DATADD", [202, 92]),
   ("E-LINE", [204, 92]),
   ("K-CUR", [0, 0]),
   ("CH-ADD", [0, 0]),
   ("X-PTR", [0, 0]),
   ("WORKSP", [206, 92]),
   ("STKBOT", [206, 92]),
   ("STKEND", [206, 92]),
   ("BREG", [0]),
   ("MEM", [146, 92]),
   ("FLAGS2", [16]),
   ("DF-SZ", [2]),
   ("S-TOP", [0, 0]),
   ("OLDPPC", [0, 0]),
   ("OSPPC", [0]),
   ("FLAGX", [0]),
   ("STRLEN", [0, 0]),
   ("T-ADDR", [0, 0]),
   ("SEED", [0, 0]),
   ("FRAMES", [0, 0, 0]),
   ("UDG", [88, 255]),
   ("COORDS", [0, 0]),
   ("P-POSN", [33]),
   ("PR-CC", [0, 91]),
   ("ECHO-E", [33, 23]),
   ("DF-CC", [0, 64]),
   ("DF-CCL", [224, 80]),
   ("S-POSN", [33, 24]),
   ("S-POSNL", [33, 23]),
   ("SCR-CT", [1]),
   ("ATTR-P", [56]),
   ("MASK-P", [0]),
   ("ATTR-T", [56]),
   ("MASK-T", [0]),
   ("P-FLAG", [0]),
   ("MEMBOT", [0, 0, 0, 0, 0, 0, 0, 0, 0, 0, 0, 0, 0, 0, 0, 0, 0, 0, 0, 0, 0, 0, 0, 0, 0, 0, 0, 0,
     0, 0]),
   ("NMIADD", [0, 0]),
   ("RAMTOP", [87, 255]),
   ("P-RAMT", [255, 255]),
   ("Channel K", [244, 9, 168, 16, 75]),
   ("Channel S", [244, 9, 196, 21, 83]),
   ("Channel R", [129, 15, 196, 21, 82]),
   ("Channel P", [244, 9, 196, 21, 80]),
   ("End of channels", [128])]

def systemVariableBytes : List UInt8 := systemVariables.flatMap Prod.snd

end Spectrum.Snapshot
