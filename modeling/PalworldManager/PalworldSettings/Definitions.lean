/-
# The settings the manager knows

`SETTING_DEFINITIONS` (`palworld_settings/definitions.py`): the key, the category, the
kind and the bounds of each setting.  A bound is kept as it is written, since that is
what an error shows of it; `Decimal` reads it.
-/

import PalworldManager.Text.Points

namespace PalworldManager

open Text

/-- `SettingKind`. -/
inductive SettingKind where
  | boolean | enum | integer | number | readOnly | sensitive | string
  deriving DecidableEq, Repr

/-- The categories of `SETTING_CATEGORIES`, in their order. -/
inductive SettingCategory where
  | performance | management | features | balance
  deriving DecidableEq, Repr

/-- `SETTING_CATEGORIES`. -/
def settingCategories : List SettingCategory := [.performance, .management, .features, .balance]

/-- `SettingDefinition`. -/
structure SettingDefinition where
  key : Str
  category : SettingCategory
  kind : SettingKind
  options : List Str
  minimum : Option String
  maximum : Option String
  deriving DecidableEq

/-- `_definition`. -/
def definition (key : String) (category : SettingCategory) (kind : SettingKind)
    (options : List String := []) (minimum maximum : Option String := none) :
    SettingDefinition where
  key := str key
  category := category
  kind := kind
  options := options.map str
  minimum := minimum
  maximum := maximum

/-- `SETTING_DEFINITIONS`. -/
def settingDefinitions : List SettingDefinition :=
  [ definition "BaseCampMaxNum" .performance .integer,
    definition "BaseCampMaxNumInGuild" .performance .integer [] none (some "10"),
    definition "BaseCampWorkerMaxNum" .performance .integer [] none (some "50"),
    definition "ItemContainerForceMarkDirtyInterval" .performance .number,
    definition "MaxBuildingLimitNum" .performance .integer,
    definition "PhysicsActiveDropItemMaxNum" .performance .integer,
    definition "ServerReplicatePawnCullDistance" .performance .number [] (some "5000")
      (some "15000"),
    definition "bAllowClientMod" .management .boolean,
    definition "AllowConnectPlatform" .management .readOnly,
    definition "bEnableBuildingPlayerUIdDisplay" .management .boolean,
    definition "bIsShowJoinLeftMessage" .management .boolean,
    definition "bIsUseBackupSaveData" .management .boolean,
    definition "ChatPostLimitPerMinute" .management .integer,
    definition "LogFormatType" .management .enum ["Text", "Json"],
    definition "PublicIP" .management .string,
    definition "PublicPort" .management .integer [] (some "1") (some "65535"),
    definition "RCONEnabled" .management .boolean,
    definition "RCONPort" .management .integer [] (some "1") (some "65535"),
    definition "RESTAPIEnabled" .management .boolean,
    definition "RESTAPIPort" .management .integer [] (some "1") (some "65535"),
    definition "ServerDescription" .management .string,
    definition "ServerName" .management .string,
    definition "ServerPlayerMaxNum" .management .integer,
    definition "AdminPassword" .management .sensitive,
    definition "ServerPassword" .management .sensitive,
    definition "CrossplayPlatforms" .management .readOnly,
    definition "AutoResetGuildTimeNoOnlinePlayers" .features .number,
    definition "bAllowEnemyCampSpawnNearBaseCamp" .features .boolean,
    definition "bAllowEnhanceStat_Attack" .features .boolean,
    definition "bAllowEnhanceStat_Health" .features .boolean,
    definition "bAllowEnhanceStat_Stamina" .features .boolean,
    definition "bAllowEnhanceStat_Weight" .features .boolean,
    definition "bAllowEnhanceStat_WorkSpeed" .features .boolean,
    definition "bAllowGlobalPalboxExport" .features .boolean,
    definition "bAllowGlobalPalboxImport" .features .boolean,
    definition "bAutoResetGuildNoOnlinePlayers" .features .boolean,
    definition "bBuildAreaLimit" .features .boolean,
    definition "bCanPickupOtherGuildDeathPenaltyDrop" .features .boolean,
    definition "bCharacterRecreateInHardcore" .features .boolean,
    definition "bDisplayPvPItemNumOnWorldMap_BaseCamp" .features .boolean,
    definition "bDisplayPvPItemNumOnWorldMap_Player" .features .boolean,
    definition "bEnableAimAssistPad" .features .boolean,
    definition "bEnableDefenseOtherGuildPlayer" .features .boolean,
    definition "bEnableFastTravel" .features .boolean,
    definition "bEnableFastTravelOnlyBaseCamp" .features .boolean,
    definition "bEnableInvaderEnemy" .features .boolean,
    definition "bEnableVoiceChat" .features .boolean,
    definition "bEnablePlayerToPlayerDamage" .features .boolean,
    definition "bExistPlayerAfterLogout" .features .boolean,
    definition "bHardcore" .features .boolean,
    definition "bInvisibleOtherGuildBaseCampAreaFX" .features .boolean,
    definition "bIsPvP" .features .boolean,
    definition "bIsRandomizerPalLevelRandom" .features .boolean,
    definition "bIsStartLocationSelectByMap" .features .boolean,
    definition "bShowPlayerList" .features .boolean,
    definition "RandomizerType" .features .enum ["None", "Region", "All"],
    definition "RandomizerSeed" .features .integer,
    definition "VoiceChatMaxVolumeDistance" .features .number,
    definition "VoiceChatZeroVolumeDistance" .features .number,
    definition "AdditionalDropItemNumWhenPlayerKillingInPvPMode" .balance .number,
    definition "AdditionalDropItemWhenPlayerKillingInPvPMode" .balance .readOnly,
    definition "bAdditionalDropItemWhenPlayerKillingInPvPMode" .balance .boolean,
    definition "BlockRespawnTime" .balance .number,
    definition "bPalLost" .balance .boolean,
    definition "BuildObjectDamageRate" .balance .number,
    definition "BuildObjectDeteriorationDamageRate" .balance .number,
    definition "CollectionDropRate" .balance .number,
    definition "CollectionObjectHpRate" .balance .number,
    definition "CollectionObjectRespawnSpeedRate" .balance .number,
    definition "DayTimeSpeedRate" .balance .number,
    definition "NightTimeSpeedRate" .balance .number,
    definition "ExpRate" .balance .number,
    definition "PalCaptureRate" .balance .number,
    definition "PalSpawnNumRate" .balance .number,
    definition "PalDamageRateAttack" .balance .number,
    definition "PalDamageRateDefense" .balance .number,
    definition "PlayerDamageRateAttack" .balance .number,
    definition "PlayerDamageRateDefense" .balance .number,
    definition "PalEggDefaultHatchingTime" .balance .number,
    definition "GuildPlayerMaxNum" .balance .integer,
    definition "SupplyDropSpan" .balance .integer,
    definition "DeathPenalty" .balance .enum ["None", "Item", "ItemAndEquipment", "All"],
    definition "DenyTechnologyList" .balance .readOnly,
    definition "EnemyDropItemRate" .balance .number,
    definition "EquipmentDurabilityDamageRate" .balance .number,
    definition "FishingDifficultyRate" .balance .number [] (some "0.1") (some "1.0"),
    definition "GuildRejoinCooldownMinutes" .balance .number,
    definition "ItemCorruptionMultiplier" .balance .number,
    definition "ItemWeightRate" .balance .number,
    definition "MonsterFarmActionSpeedRate" .balance .number,
    definition "PalAutoHPRegeneRate" .balance .number,
    definition "PalAutoHpRegeneRateInSleep" .balance .number,
    definition "PalStaminaDecreaceRate" .balance .number,
    definition "PalStomachDecreaceRate" .balance .number,
    definition "PlayerAutoHPRegeneRate" .balance .number,
    definition "PlayerAutoHpRegeneRateInSleep" .balance .number,
    definition "PlayerStaminaDecreaceRate" .balance .number,
    definition "PlayerStomachDecreaceRate" .balance .number,
    definition "RespawnPenaltyDurationThreshold" .balance .number,
    definition "RespawnPenaltyTimeScale" .balance .number ]

/-- `SETTING_DEFINITIONS_BY_KEY.get(key)`. -/
def settingDefinition (key : Str) : Option SettingDefinition :=
  settingDefinitions.find? fun d => d.key == key

end PalworldManager
