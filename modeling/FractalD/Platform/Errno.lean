namespace FractalD.Platform

abbrev Errno := Nat

def ePerm : Errno := 1
def eNoEnt : Errno := 2
def e2Big : Errno := 7
def eBadF : Errno := 9
def eAgain : Errno := 11
def eNoMem : Errno := 12
def eBusy : Errno := 16
def eExist : Errno := 17
def eNotDir : Errno := 20
def eIsDir : Errno := 21
def eInval : Errno := 22
def eMFile : Errno := 24
def eRange : Errno := 34
def eNameTooLong : Errno := 36
def eNoSys : Errno := 38
def eNotEmpty : Errno := 39
def eLoop : Errno := 40
def eNotSup : Errno := 95

end FractalD.Platform
