import Decentagram.EclipseMonitor.DataTypes

namespace Decentagram.Eth

namespace Params

def difficultyBoundDivisorBitShift : UInt64 := 11

def minimumDifficulty : Difficulty := 131072

def durationLimit : Timestamp := 13

end Params

/-- The block at which each fork starts, for the forks a network has. -/
structure NetworkConfig where
  parisBlkNum : Option BlockNumber
  grayGlacierBlkNum : Option BlockNumber
  arrowGlacierBlkNum : Option BlockNumber
  londonBlkNum : Option BlockNumber
  muirGlacierBlkNum : Option BlockNumber
  constantinopleBlkNum : Option BlockNumber
  byzantiumBlkNum : Option BlockNumber
  homesteadBlkNum : Option BlockNumber
deriving DecidableEq, Repr

namespace NetworkConfig

def isBlockOf (forkBlkNum : Option BlockNumber) (blkNum : BlockNumber) : Bool :=
  match forkBlkNum with
  | none => false
  | some fork => blkNum ≥ fork

def isBlockOfParis (config : NetworkConfig) := isBlockOf config.parisBlkNum

def isBlockOfGrayGlacier (config : NetworkConfig) := isBlockOf config.grayGlacierBlkNum

def isBlockOfArrowGlacier (config : NetworkConfig) := isBlockOf config.arrowGlacierBlkNum

def isBlockOfLondon (config : NetworkConfig) := isBlockOf config.londonBlkNum

def isBlockOfMuirGlacier (config : NetworkConfig) := isBlockOf config.muirGlacierBlkNum

def isBlockOfConstantinople (config : NetworkConfig) := isBlockOf config.constantinopleBlkNum

def isBlockOfByzantium (config : NetworkConfig) := isBlockOf config.byzantiumBlkNum

def isBlockOfHomestead (config : NetworkConfig) := isBlockOf config.homesteadBlkNum

def mainnet : NetworkConfig where
  parisBlkNum := some 15537394
  grayGlacierBlkNum := some 15050000
  arrowGlacierBlkNum := some 13773000
  londonBlkNum := some 12965000
  muirGlacierBlkNum := some 9200000
  constantinopleBlkNum := some 7280000
  byzantiumBlkNum := some 4370000
  homesteadBlkNum := some 1150000

def goerli : NetworkConfig where
  parisBlkNum := some 7382819
  grayGlacierBlkNum := none
  arrowGlacierBlkNum := none
  londonBlkNum := some 5062605
  muirGlacierBlkNum := none
  constantinopleBlkNum := some 0
  byzantiumBlkNum := some 0
  homesteadBlkNum := some 0

end NetworkConfig

end Decentagram.Eth
