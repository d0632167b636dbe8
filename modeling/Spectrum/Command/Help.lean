import Spectrum.Loader.Catalogue

/-! # Help texts

What the programs print instead of doing a job. -/

namespace Spectrum.Command

/-- What is printed when a command line leaves out what a program needs. -/
def usage (program purpose : String) : String := s!"{program}: {purpose}\n\n\n"

/-- The line of a loader's name, which may be a further name of another one. -/
def loaderLine (name : String) : String :=
  match Loader.aliases.lookup name with
  | some canonical => s!"  {name} (same as {canonical})\n"
  | none => s!"  {name}\n"

def loaderHelp : String :=
  "Usage: --accelerator NAME\n\n" ++
  "Use the named accelerator to speed up the simulation of the tape's loading routine. NAME may\n" ++
  "be 'auto' (try every accelerator), 'none' (no acceleration) or one of the following:\n\n" ++
  String.join (Loader.PollingLoop.names.map loaderLine)

def ramHelp : String :=
  "Usage: --ram load=[+]block[+],start[,length,step,offset,inc]\n" ++
  "       --ram poke=a[-b[-c]],[^+]v\n" ++
  "       --ram move=src,size,dest\n" ++
  "       --ram sysvars\n" ++
  "\n" ++
  "Modify memory after the tape has been loaded. Operations are applied in the order given.\n" ++
  "\n" ++
  "load: copy tape block 'block' (counting from 1) to 'start' onwards. The flag byte is copied " ++
  "only if\n" ++
  "      'block' begins with '+', and the parity byte only if it ends with '+'. 'length' limits " ++
  "the number\n" ++
  "      of bytes; each byte goes to the current address plus 'offset', and the address then " ++
  "moves on by\n" ++
  "      'step', adding 'inc' whenever it passes 65535. If any load operation is given, the tape " ++
  "isn't\n" ++
  "      loaded in the usual way.\n" ++
  "poke: set address 'a' (or every 'c'th address from 'a' to 'b') to 'v', or XOR ('^v') or add " ++
  "('+v').\n" ++
  "move: copy 'size' bytes from 'src' to 'dest'.\n" ++
  "sysvars: initialise the system variables at 23552-23754.\n" ++
  "\n" ++
  "Numbers may be given in decimal, or in hexadecimal with a '$' or '0x' prefix.\n"

end Spectrum.Command
